import Windborne.Javalin.Messages

/-!
# When message requests are linearizable

Reads and creations are single statements and take effect there. A deletion takes effect at
its `DELETE` and an edit at its `UPDATE`, but they answer with what another `SELECT` has
found. When that is what the statement itself finds, the history is linearizable; otherwise
two deletions may return the same message, and an edit the text of another one.
-/

namespace Windborne.Javalin

open Library
open Spring (JavaString javaString)

variable {rows : List Message} {m : Message} {id : Int}

/-! ## Rows -/

theorem getMessageById_eq_none : getMessageById rows id = none ↔ ∀ m ∈ rows, m.messageId ≠ id := by
  simp [getMessageById]

theorem mem_of_getMessageById (h : getMessageById rows id = some m) :
    m ∈ rows ∧ m.messageId = id :=
  ⟨List.mem_of_find?_eq_some h, by simpa using List.find?_some h⟩

theorem getMessageById_eq_some (hIds : (rows.map Message.messageId).Nodup) :
    getMessageById rows id = some m ↔ m ∈ rows ∧ m.messageId = id := by
  refine ⟨mem_of_getMessageById, ?_⟩
  rintro ⟨hMem, hId⟩
  cases hFound : getMessageById rows id with
  | none => exact absurd hId (getMessageById_eq_none.mp hFound m hMem)
  | some m' =>
    obtain ⟨hMem', hId'⟩ := mem_of_getMessageById hFound
    rw [List.inj_on_of_nodup_map hIds hMem' hMem (hId'.trans hId.symm)]

theorem getMessageById_append (h : ∀ m' ∈ rows, m'.messageId ≠ m.messageId) :
    getMessageById (rows ++ [m]) =
      Function.update (getMessageById rows) m.messageId (some m) := by
  ext id : 1
  by_cases hId : id = m.messageId
  · subst hId
    rw [Function.update_self]
    have hNone : rows.find? (·.messageId = m.messageId) = none := getMessageById_eq_none.mpr h
    simp [getMessageById, hNone]
  · rw [Function.update_of_ne hId]
    simp [getMessageById, Ne.symm hId]

theorem getMessageById_remove (rows : List Message) (id : Int) :
    getMessageById (removeMessageById rows id) =
      Function.update (getMessageById rows) id none := by
  ext id' : 1
  by_cases hId : id' = id
  · subst hId
    rw [Function.update_self]
    exact getMessageById_eq_none.mpr (by simp [removeMessageById])
  · rw [Function.update_of_ne hId]
    unfold getMessageById removeMessageById
    rw [List.find?_filter]
    congr 1
    ext m
    by_cases hm : m.messageId = id' <;> simp [hm, hId]

theorem getMessageById_update (rows : List Message) (id id' : Int) (newText : JavaString) :
    getMessageById (updateMessageTextById rows id newText) id' =
      (getMessageById rows id').map fun m =>
        if m.messageId = id then { m with messageText := newText } else m := by
  unfold getMessageById updateMessageTextById
  rw [List.find?_map]
  congr 2
  ext m
  simp only [Function.comp_apply]
  split <;> rfl

theorem getMessageById_update_some {newText : JavaString}
    (h : getMessageById rows id = some m) :
    getMessageById (updateMessageTextById rows id newText) =
      Function.update (getMessageById rows) m.messageId
        (some { m with messageText := newText }) := by
  have hId := (mem_of_getMessageById h).2
  ext id' : 1
  rw [getMessageById_update]
  by_cases hEq : id' = m.messageId
  · rw [hEq, Function.update_self, hId, h]
    simp [hId]
  · rw [Function.update_of_ne hEq]
    cases hOther : getMessageById rows id' with
    | none => rfl
    | some m' =>
      have hNe : m'.messageId ≠ id := by
        rw [(mem_of_getMessageById hOther).2, ← hId]
        exact hEq
      simp [hNe]

theorem update_of_getMessageById_none {newText : JavaString}
    (h : getMessageById rows id = none) : updateMessageTextById rows id newText = rows := by
  unfold updateMessageTextById
  apply (List.map_congr_left _).trans (List.map_id rows)
  intro m hm
  exact if_neg (getMessageById_eq_none.mp h m hm)

theorem map_messageId_update (rows : List Message) (id : Int) (newText : JavaString) :
    (updateMessageTextById rows id newText).map Message.messageId =
      rows.map Message.messageId := by
  unfold updateMessageTextById
  rw [List.map_map]
  apply List.map_congr_left
  intro m _
  simp only [Function.comp_apply]
  split <;> rfl

theorem acceptsText_eq_some {text : Option JavaString} {newText : JavaString}
    (h : acceptsText text = some newText) : text = some newText := by
  cases text with
  | none => cases h
  | some text =>
    simp only [acceptsText] at h
    split_ifs at h
    exact h

/-! ## The invariant -/

variable {P : Type} [DecidableEq P] {env : Environment} {requests : P → Request}
  {s t : State P} {a : Action P} {b₀ : Board} {order : List (P × Response)} {p q : P}

/-- What a request that has not taken effect is waiting for. -/
def Waits (env : Environment) (used : List Int) (request : Request) : Pc → Prop
  | .insert m => ∃ body, request = .newMessage body ∧ acceptsNew body = some m
  | .delete id _ => ∃ messageId, request = .deleteMessageById messageId ∧
      env.parseInt messageId = some id
  | .update id newText => id ∈ used ∧ ∃ messageId temp,
      request = .updateMessageGivenMessageId messageId (some temp) ∧
        acceptsText temp.messageText = some newText ∧ env.parseInt messageId = some id
  | _ => False

/-- What holds of a request at its next statement. -/
def Point (env : Environment) (request : Request) (s : State P) (order : List (P × Response))
    (p : P) : Pc → Prop
  | .start => .call p ∉ s.history
  | .reselect id newText true => id ∈ s.used ∧ ∃ m, (p, .message m) ∈ order ∧
      ∀ row ∈ s.rows, row.messageId = id → { row with messageText := some newText } = m
  | .reselect id _ false => id ∈ s.used ∧ (p, .badRequest) ∈ order ∧
      ∀ row ∈ s.rows, row.messageId ≠ id
  | .done r => (p, r) ∈ order
  | pc => .call p ∈ s.history ∧ p ∉ order.map Prod.fst ∧ Waits env s.used request pc

structure Inv (env : Environment) (requests : P → Request) (b₀ : Board) (s : State P)
    (order : List (P × Response)) : Prop where
  lin : Linearization (Atomic env) requests b₀ s.history order s.board
  ids : (s.rows.map Message.messageId).Nodup
  used : ∀ m ∈ s.rows, m.messageId ∈ s.used
  point : ∀ p, Point env (requests p) s order p (s.pc p)

/-- What a step of `p` leaves alone. -/
structure Frame (s t : State P) (order order' : List (P × Response)) (p : P) : Prop where
  pc : ∀ q, q ≠ p → t.pc q = s.pc q
  calls : ∀ q, q ≠ p → (.call q ∈ t.history ↔ .call q ∈ s.history)
  order : ∀ q, q ≠ p → ∀ r, (q, r) ∈ order' ↔ (q, r) ∈ order
  used : ∀ id ∈ s.used, id ∈ t.used
  rows : ∀ row ∈ t.rows, row.messageId ∈ s.used → ∃ old ∈ s.rows,
    old.messageId = row.messageId ∧
      ∀ text, { row with messageText := text } = { old with messageText := text }

theorem Waits.mono {used used' : List Int} {request : Request} {pc : Pc}
    (h : Waits env used request pc) (hUsed : ∀ id ∈ used, id ∈ used') :
    Waits env used' request pc := by
  cases pc with
  | update id newText => exact ⟨hUsed id h.1, h.2⟩
  | _ => exact h

section Frame

variable {order' : List (P × Response)}

omit [DecidableEq P]

theorem Frame.mem_fst (h : Frame s t order order' p) (hq : q ≠ p) :
    q ∈ order'.map Prod.fst ↔ q ∈ order.map Prod.fst := by
  simp only [List.mem_map, Prod.exists, exists_and_right, exists_eq_right]
  exact exists_congr fun r => h.order q hq r

/-- Another request's step leaves a request where it was. -/
theorem Point.frame {pc : Pc} {request : Request} (h : Point env request s order q pc)
    (hFrame : Frame s t order order' p) (hq : q ≠ p) : Point env request t order' q pc := by
  have hCalled : (.call q ∈ s.history ∧ q ∉ order.map Prod.fst ∧ Waits env s.used request pc) →
      .call q ∈ t.history ∧ q ∉ order'.map Prod.fst ∧ Waits env t.used request pc := by
    rintro ⟨hCall, hNew, hWaits⟩
    refine ⟨(hFrame.calls q hq).mpr hCall, ?_, hWaits.mono hFrame.used⟩
    rwa [hFrame.mem_fst hq]
  cases pc with
  | start => exact fun hCall => h ((hFrame.calls q hq).mp hCall)
  | done r => exact (hFrame.order q hq r).mpr h
  | reselect id newText matched =>
    cases matched with
    | true =>
      obtain ⟨hUsed, m, hm, hRows⟩ := h
      refine ⟨hFrame.used id hUsed, m, (hFrame.order q hq _).mpr hm, ?_⟩
      rintro row hRow rfl
      obtain ⟨old, hOld, hId, hText⟩ := hFrame.rows row hRow hUsed
      rw [hText, hRows old hOld hId]
    | false =>
      obtain ⟨hUsed, hm, hRows⟩ := h
      refine ⟨hFrame.used id hUsed, (hFrame.order q hq _).mpr hm, ?_⟩
      rintro row hRow rfl
      obtain ⟨old, hOld, hId, -⟩ := hFrame.rows row hRow hUsed
      exact hRows old hOld hId
  | insert m => exact hCalled h
  | delete id m => exact hCalled h
  | update id newText => exact hCalled h

end Frame

/-- The rows that a statement leaves have come from old ones. -/
def KeepsRows (s : State P) (rows : List Message) : Prop :=
  ∀ row ∈ rows, row.messageId ∈ s.used → ∃ old ∈ s.rows, old.messageId = row.messageId ∧
    ∀ text, { row with messageText := text } = { old with messageText := text }

omit [DecidableEq P] in
theorem keepsRows_of_subset (h : ∀ row ∈ rows, row ∈ s.rows) : KeepsRows s rows :=
  fun row hRow _ => ⟨row, h row hRow, rfl, fun _ => rfl⟩

theorem Frame.of_step {pc : Pc} {events : List (Event P Response)}
    {entries : List (P × Response)} (hPc : t.pc = Function.update s.pc p pc)
    (hHistory : t.history = s.history ++ events) (hEvents : ∀ q, .call q ∈ events → q = p)
    (hEntries : ∀ e ∈ entries, e.1 = p) (hUsed : ∀ id ∈ s.used, id ∈ t.used)
    (hRows : KeepsRows s t.rows) : Frame s t order (order ++ entries) p where
  pc q hq := by rw [hPc, Function.update_of_ne hq]
  calls q hq := by
    rw [hHistory, List.mem_append]
    exact or_iff_left fun hMem => hq (hEvents q hMem)
  order q hq r := by
    rw [List.mem_append]
    exact or_iff_left fun hMem => hq (hEntries _ hMem)
  used := hUsed
  rows := hRows

omit [DecidableEq P] in
theorem Inv.of_frame {order' : List (P × Response)} (h : Inv env requests b₀ s order)
    (hFrame : Frame s t order order' p)
    (hLin : Linearization (Atomic env) requests b₀ t.history order' t.board)
    (hIds : (t.rows.map Message.messageId).Nodup) (hUsed : ∀ m ∈ t.rows, m.messageId ∈ t.used)
    (hPoint : Point env (requests p) t order' p (t.pc p)) : Inv env requests b₀ t order' where
  lin := hLin
  ids := hIds
  used := hUsed
  point q := by
    by_cases hq : q = p
    · rwa [hq]
    · rw [hFrame.pc q hq]
      exact (h.point q).frame hFrame hq

/-! ## Steps -/

theorem storable_eq_some {body : Option Message} (h : acceptsNew body = some m)
    (hAccount : m.postedBy ∈ env.accounts) : storable env body = some m := by
  rw [storable, h, Option.filter_some, if_pos]
  exact decide_eq_true hAccount

theorem storable_eq_none {body : Option Message} (h : acceptsNew body = some m)
    (hAccount : m.postedBy ∉ env.accounts) : storable env body = none := by
  rw [storable, h, Option.filter_some, if_neg]
  simpa using hAccount

theorem lists_rows (h : (rows.map Message.messageId).Nodup) (used : List Int) :
    Lists ⟨getMessageById rows, used⟩ (fun _ => True) rows := by
  refine ⟨fun m => ?_, h⟩
  simp [getMessageById_eq_some h]

theorem lists_byUser (h : (rows.map Message.messageId).Nodup) (used : List Int) (userId : Int) :
    Lists ⟨getMessageById rows, used⟩ (fun m => m.postedBy = userId)
      (selectAllMessagesByUserId rows userId) := by
  refine ⟨fun m => ?_, h.sublist (List.filter_sublist.map _)⟩
  simp [getMessageById_eq_some h, selectAllMessagesByUserId]

/-- What the first step of a request does: it answers as the atomic request would, or it has
more to do. -/
theorem begin_cases (env : Environment) (p : P) (request : Request)
    (hIds : (s.rows.map Message.messageId).Nodup) (hUsed : ∀ m ∈ s.rows, m.messageId ∈ s.used) :
    (∃ r, begin_ env s p request = s.finish p r ∧ Atomic env s.board request r s.board) ∨
      ∃ pc, begin_ env s p request = s.goto p pc ∧ Waits env s.used request pc := by
  cases request with
  | newMessage body =>
    cases hBody : acceptsNew body with
    | none =>
      refine Or.inl ⟨.badRequest, ?_, ?_⟩
      · simp [begin_, hBody]
      · simp [Atomic, storable, hBody]
    | some m =>
      refine Or.inr ⟨.insert m, ?_, body, rfl, hBody⟩
      simp [begin_, hBody, userExists]
  | getAllMessages => exact Or.inl ⟨_, rfl, ⟨_, rfl, lists_rows hIds _⟩, rfl⟩
  | getMessageById messageId =>
    cases hFound : (env.parseInt messageId).bind (getMessageById s.rows) with
    | none =>
      refine Or.inl ⟨.empty, ?_, ?_⟩
      · simp [begin_, hFound]
      · simp [Atomic, State.board, hFound]
    | some m =>
      refine Or.inl ⟨.message m, ?_, ?_⟩
      · simp [begin_, hFound]
      · simp [Atomic, State.board, hFound]
  | deleteMessageById messageId =>
    cases hId : env.parseInt messageId with
    | none =>
      refine Or.inl ⟨.empty, ?_, ?_⟩
      · simp [begin_, hId]
      · simp [Atomic, hId]
    | some id =>
      cases hFound : getMessageById s.rows id with
      | none =>
        refine Or.inl ⟨.empty, ?_, ?_⟩
        · simp [begin_, hId, hFound]
        · simp [Atomic, State.board, hId, hFound]
      | some m =>
        refine Or.inr ⟨.delete id m, ?_, messageId, rfl, hId⟩
        simp [begin_, hId, hFound]
  | updateMessageGivenMessageId messageId body =>
    cases body with
    | none => exact Or.inl ⟨.serverError, rfl, rfl, rfl⟩
    | some temp =>
      cases hText : acceptsText temp.messageText with
      | none =>
        refine Or.inl ⟨.badRequest, ?_, ?_⟩
        · simp [begin_, hText]
        · simp [Atomic, hText]
      | some newText =>
        cases hId : env.parseInt messageId with
        | none =>
          refine Or.inl ⟨.badRequest, ?_, ?_⟩
          · simp [begin_, hText, hId]
          · simp [Atomic, hId]
        | some id =>
          cases hFound : getMessageById s.rows id with
          | none =>
            refine Or.inl ⟨.badRequest, ?_, ?_⟩
            · simp [begin_, hText, hId, hFound]
            · simp [Atomic, State.board, hId, hFound]
          | some m =>
            obtain ⟨hMem, hmId⟩ := mem_of_getMessageById hFound
            refine Or.inr ⟨.update id newText, ?_, hmId ▸ hUsed m hMem, messageId, temp, rfl,
              hText, hId⟩
            simp [begin_, hText, hId, hFound]
  | getAllMessagesFromUserAccountId accountId =>
    cases hId : env.parseInt accountId with
    | none =>
      refine Or.inl ⟨.serverError, ?_, ?_⟩
      · simp [begin_, hId]
      · simp [Atomic, hId]
    | some id =>
      refine Or.inl ⟨.messages (selectAllMessagesByUserId s.rows id), ?_, ?_⟩
      · simp [begin_, hId]
      · have hLists : Lists s.board _ _ := lists_byUser hIds s.used id
        simpa [Atomic, hId] using hLists

theorem Inv.begin_ (h : Inv env requests b₀ s order) (hpc : s.pc p = .start) :
    ∃ order', Inv env requests b₀ (begin_ env (s.call p) p (requests p)) order' := by
  have hPoint := h.point p
  rw [hpc] at hPoint
  have hNew : p ∉ order.map Prod.fst := fun hMem => hPoint (h.lin.called p hMem)
  have hKeeps : KeepsRows s s.rows := keepsRows_of_subset fun _ hRow => hRow
  rcases begin_cases env p (requests p) (s := s.call p) h.ids h.used with
    ⟨r, hEq, hAtomic⟩ | ⟨pc, hEq, hWaits⟩
  · -- the request is over, and has taken effect
    rw [hEq]
    refine ⟨order ++ [(p, r)], ?_⟩
    have hHistory : ((s.call p).finish p r).history = s.history ++ [.call p, .ret p r] := by
      simp [State.call, State.finish]
    have hFrame : Frame s ((s.call p).finish p r) order (order ++ [(p, r)]) p :=
      Frame.of_step rfl hHistory (by simp) (by simp) (fun _ hId => hId) hKeeps
    refine h.of_frame hFrame ?_ h.ids h.used ?_
    · rw [hHistory]
      exact h.lin.atOnce hNew hAtomic
    · simp [State.finish, Point]
  · rw [hEq]
    refine ⟨order, ?_⟩
    have hFrame : Frame s ((s.call p).goto p pc) order (order ++ []) p :=
      Frame.of_step rfl rfl (by simp) (by simp) (fun _ hId => hId) hKeeps
    rw [List.append_nil] at hFrame
    refine h.of_frame hFrame (h.lin.call p) h.ids h.used ?_
    have hCall : Event.call p ∈ ((s.call p).goto p pc).history := by
      simp [State.call, State.goto]
    have hPc : ((s.call p).goto p pc).pc p = pc := by simp [State.goto]
    rw [hPc]
    cases pc with
    | start | reselect id newText matched | done r => cases hWaits
    | insert m => exact ⟨hCall, hNew, hWaits⟩
    | delete id m => exact ⟨hCall, hNew, hWaits⟩
    | update id newText => exact ⟨hCall, hNew, hWaits⟩

/-- A statement at which a request takes effect and returns. -/
theorem Inv.finish (h : Inv env requests b₀ s order) {r : Response} {used : List Int}
    (hCall : .call p ∈ s.history) (hNew : p ∉ order.map Prod.fst)
    (hUsed : ∀ id ∈ s.used, id ∈ used) (hRows : KeepsRows s rows)
    (hIds : (rows.map Message.messageId).Nodup) (hRowsUsed : ∀ m ∈ rows, m.messageId ∈ used)
    (hAtomic : Atomic env s.board (requests p) r ⟨getMessageById rows, used⟩) :
    ∃ order', Inv env requests b₀ { s.finish p r with rows, used } order' := by
  refine ⟨order ++ [(p, r)], ?_⟩
  have hFrame : Frame s { s.finish p r with rows, used } order (order ++ [(p, r)]) p :=
    Frame.of_step rfl rfl (by simp) (by simp) hUsed hRows
  refine h.of_frame hFrame ?_ hIds hRowsUsed ?_
  · exact (h.lin.effect hCall hNew hAtomic).ret (by simp)
  · simp [State.finish, Point]

theorem Inv.insert (h : Inv env requests b₀ s order) {m : Message}
    (hpc : s.pc a.process = .insert m) (hStep : insertMessage env s a m = some t) :
    ∃ order', Inv env requests b₀ t order' := by
  have hPoint := h.point a.process
  rw [hpc] at hPoint
  obtain ⟨hCall, hNew, body, hRequest, hBody⟩ := hPoint
  unfold insertMessage at hStep
  split_ifs at hStep with hAccount hKey
  · cases hStep
    have hFresh : ∀ row ∈ s.rows, row.messageId ≠ a.key := fun row hRow hEq =>
      hKey (hEq ▸ h.used row hRow)
    refine h.finish hCall hNew (fun id hId => List.mem_cons_of_mem _ hId) ?_ ?_ ?_ ?_
    · intro row hRow hUsed
      rcases List.mem_append.mp hRow with hOld | hLast
      · exact ⟨row, hOld, rfl, fun _ => rfl⟩
      · rw [List.mem_singleton.mp hLast] at hUsed
        exact absurd hUsed hKey
    · exact nodup_map_snoc_iff.mpr ⟨h.ids, hFresh⟩
    · exact forall_mem_snoc (fun row hRow => List.mem_cons_of_mem _ (h.used row hRow))
        List.mem_cons_self
    · rw [getMessageById_append hFresh, hRequest]
      simp only [Atomic, storable_eq_some hBody hAccount]
      exact ⟨a.key, hKey, rfl, rfl⟩
  · cases hStep
    have hKeeps : KeepsRows s s.rows := keepsRows_of_subset fun _ hRow => hRow
    refine h.finish hCall hNew (fun _ hId => hId) hKeeps h.ids h.used ?_
    rw [hRequest]
    simp [Atomic, storable_eq_none hBody hAccount, State.board]

theorem removeMessageById_sublist (rows : List Message) (id : Int) :
    (removeMessageById rows id).Sublist rows := List.filter_sublist

/-- A deletion that finds the row that it answers with takes effect at its `DELETE`. -/
theorem Inv.delete (h : Inv env requests b₀ s order) (hpc : s.pc p = .delete id m)
    (hFound : getMessageById s.rows id = some m) :
    ∃ order', Inv env requests b₀
      { s.finish p (.message m) with rows := removeMessageById s.rows id } order' := by
  have hPoint := h.point p
  rw [hpc] at hPoint
  obtain ⟨hCall, hNew, messageId, hRequest, hId⟩ := hPoint
  have hSub := removeMessageById_sublist s.rows id
  refine h.finish hCall hNew (fun _ hUsed => hUsed)
    (keepsRows_of_subset fun _ hRow => hSub.subset hRow) (h.ids.sublist (hSub.map _))
    (fun row hRow => h.used row (hSub.subset hRow)) ?_
  have hmId := (mem_of_getMessageById hFound).2
  rw [getMessageById_remove, hRequest]
  simp [Atomic, hId, State.board, State.finish, hFound, hmId]

theorem mem_update {row : Message} {newText : JavaString}
    (h : row ∈ updateMessageTextById rows id newText) :
    ∃ old ∈ rows, old.messageId = row.messageId ∧
      (old.messageId = id → row = { old with messageText := some newText }) ∧
      ∀ text, { row with messageText := text } = { old with messageText := text } := by
  obtain ⟨old, hOld, rfl⟩ := List.mem_map.mp h
  refine ⟨old, hOld, ?_⟩
  split
  · exact ⟨rfl, fun _ => rfl, fun _ => rfl⟩
  · rename_i hNe
    exact ⟨rfl, fun hEq => absurd hEq hNe, fun _ => rfl⟩

/-- An edit takes effect at its `UPDATE`, also when that finds no row any more. -/
theorem Inv.update (h : Inv env requests b₀ s order) {newText : JavaString}
    (hpc : s.pc p = .update id newText) :
    ∃ order', Inv env requests b₀
      { s.goto p (.reselect id newText (getMessageById s.rows id).isSome) with
        rows := updateMessageTextById s.rows id newText } order' := by
  have hPoint := h.point p
  rw [hpc] at hPoint
  obtain ⟨hCall, hNew, hIdUsed, messageId, temp, hRequest, hText, hId⟩ := hPoint
  have hKeeps : KeepsRows s (updateMessageTextById s.rows id newText) := by
    intro row hRow _
    obtain ⟨old, hOld, hEq, -, hTexts⟩ := mem_update hRow
    exact ⟨old, hOld, hEq, hTexts⟩
  have hIds : ((updateMessageTextById s.rows id newText).map Message.messageId).Nodup := by
    rw [map_messageId_update]
    exact h.ids
  have hUsed : ∀ row ∈ updateMessageTextById s.rows id newText, row.messageId ∈ s.used := by
    intro row hRow
    obtain ⟨old, hOld, hEq, -⟩ := mem_update hRow
    rw [← hEq]
    exact h.used old hOld
  -- the answer of the atomic edit, which the last `SELECT` has to find
  have hEffect : ∃ r, Atomic env s.board (requests p) r
        ⟨getMessageById (updateMessageTextById s.rows id newText), s.used⟩ ∧
      ∀ rest : State P, rest.rows = updateMessageTextById s.rows id newText →
        rest.used = s.used → Point env (requests p) rest (order ++ [(p, r)]) p
          (.reselect id newText (getMessageById s.rows id).isSome) := by
    rw [hRequest]
    cases hFound : getMessageById s.rows id with
    | none =>
      refine ⟨.badRequest, ?_, ?_⟩
      · rw [update_of_getMessageById_none hFound]
        simp [Atomic, hText, hId, State.board, hFound]
      · intro rest hRows hRestUsed
        refine ⟨hRestUsed ▸ hIdUsed, by simp, ?_⟩
        rw [hRows, update_of_getMessageById_none hFound]
        exact getMessageById_eq_none.mp hFound
    | some m =>
      obtain ⟨hMem, hmId⟩ := mem_of_getMessageById hFound
      refine ⟨.message { m with messageText := newText }, ?_, ?_⟩
      · rw [getMessageById_update_some hFound]
        simp [Atomic, hText, hId, State.board, hFound]
      · intro rest hRows hRestUsed
        refine ⟨hRestUsed ▸ hIdUsed, { m with messageText := newText }, by simp, ?_⟩
        intro row hRow hRowId
        rw [hRows] at hRow
        obtain ⟨old, hOld, hEq, -, hTexts⟩ := mem_update hRow
        have hSame : old = m :=
          List.inj_on_of_nodup_map h.ids hOld hMem (hEq.trans (hRowId.trans hmId.symm))
        rw [hTexts, hSame]
  obtain ⟨r, hAtomic, hAfter⟩ := hEffect
  refine ⟨order ++ [(p, r)], ?_⟩
  have hFrame : Frame s { s.goto p (.reselect id newText (getMessageById s.rows id).isSome) with
      rows := updateMessageTextById s.rows id newText } order (order ++ [(p, r)]) p :=
    Frame.of_step rfl (List.append_nil _).symm (by simp) (by simp) (fun _ hUsed => hUsed) hKeeps
  refine h.of_frame hFrame ?_ hIds hUsed ?_
  · exact h.lin.effect hCall hNew hAtomic
  · simp only [State.goto, Function.update_self]
    exact hAfter _ rfl rfl

omit [DecidableEq P] in
/-- The last `SELECT` of an edit that finds the text of the edit answers as the edit did. -/
theorem Inv.reselect (h : Inv env requests b₀ s order) {newText : JavaString}
    {matched : Bool} (hpc : s.pc p = .reselect id newText matched)
    (hFinds : FindsOwn s.rows (.reselect id newText matched)) :
    (p, (getMessageById s.rows id).elim .badRequest .message) ∈ order := by
  have hPoint := h.point p
  rw [hpc] at hPoint
  cases matched with
  | true =>
    obtain ⟨-, m, hOrder, hRows⟩ := hPoint
    obtain ⟨found, hFound, hText⟩ := hFinds
    rw [Option.mem_def] at hFound
    obtain ⟨hMem, hId⟩ := mem_of_getMessageById hFound
    have hEq := hRows found hMem hId
    rw [← hText] at hEq
    have hSame : found = m := hEq
    rwa [hFound, Option.elim_some, hSame]
  | false =>
    obtain ⟨-, hOrder, hRows⟩ := hPoint
    rwa [getMessageById_eq_none.mpr hRows, Option.elim_none]

/-- A request that has taken effect returns. -/
theorem Inv.ret (h : Inv env requests b₀ s order) {r : Response} (hOrder : (p, r) ∈ order) :
    Inv env requests b₀ (s.finish p r) order := by
  have hFrame : Frame s (s.finish p r) order (order ++ []) p :=
    Frame.of_step rfl rfl (by simp) (by simp) (fun _ hId => hId)
      (keepsRows_of_subset fun _ hRow => hRow)
  rw [List.append_nil] at hFrame
  refine h.of_frame hFrame (h.lin.ret hOrder) h.ids h.used ?_
  simpa [State.finish, Point] using hOrder

theorem Inv.step (h : Inv env requests b₀ s order) (hOk : Undisturbed s a)
    (hStep : Step env requests s a t) : ∃ order', Inv env requests b₀ t order' := by
  unfold Step Javalin.step at hStep
  unfold Undisturbed at hOk
  cases hpc : s.pc a.process with
  | start =>
    simp only [hpc, Option.some.injEq] at hStep
    rw [← hStep]
    exact h.begin_ hpc
  | insert m =>
    simp only [hpc] at hStep
    exact h.insert hpc hStep
  | delete id m =>
    simp only [hpc, Option.some.injEq] at hStep
    rw [hpc] at hOk
    rw [← hStep]
    exact h.delete hpc hOk
  | update id newText =>
    simp only [hpc, Option.some.injEq] at hStep
    rw [← hStep]
    exact h.update hpc
  | reselect id newText matched =>
    simp only [hpc] at hStep
    rw [hpc] at hOk
    have hOrder := h.reselect hpc hOk
    refine ⟨order, ?_⟩
    cases hFound : getMessageById s.rows id with
    | none =>
      rw [hFound] at hStep hOrder
      cases hStep
      exact h.ret hOrder
    | some m =>
      rw [hFound] at hStep hOrder
      cases hStep
      exact h.ret hOrder
  | done r => simp [hpc] at hStep

omit [DecidableEq P] in
theorem inv_of_initial (h : Initial s) : Inv env requests s.board s [] where
  lin := by
    rw [h.history]
    exact .nil
  ids := h.ids
  used := h.used
  point p := by
    rw [h.pc p, Point, h.history]
    exact List.not_mem_nil

/-! ## Sequential runs -/

/-- Messages stand under their own ids, which are used. -/
def Board.Ok (b : Board) : Prop :=
  ∀ id m, b.messages id = some m → m.messageId = id ∧ id ∈ b.used

omit [DecidableEq P] in
theorem board_ok (h : Initial s) : s.board.Ok := by
  intro id m hm
  obtain ⟨hMem, rfl⟩ := mem_of_getMessageById hm
  exact ⟨rfl, h.used m hMem⟩

/-- The id is used and no message has it. -/
def Board.Gone (b : Board) (id : Int) : Prop := id ∈ b.used ∧ b.messages id = none

/-- Three ways in which a request leaves the board. -/
theorem atomic_cases {b c : Board} {request : Request} {r : Response}
    (h : Atomic env b request r c) :
    c = b ∨ (∃ m, m.messageId ∉ b.used ∧
        c = ⟨Function.update b.messages m.messageId (some m), m.messageId :: b.used⟩) ∨
      (∃ m id, b.messages id = some m ∧
        c = ⟨Function.update b.messages m.messageId none, b.used⟩) ∨
      ∃ m id text, b.messages id = some m ∧ c = ⟨Function.update b.messages m.messageId
        (some { m with messageText := text }), b.used⟩ := by
  cases request with
  | newMessage body =>
    simp only [Atomic] at h
    split at h
    · exact Or.inl h.2
    · rename_i m _
      obtain ⟨id, hNew, -, hc⟩ := h
      exact Or.inr (Or.inl ⟨{ m with messageId := id }, hNew, hc⟩)
  | getAllMessages => exact Or.inl h.2
  | getMessageById messageId =>
    simp only [Atomic] at h
    split at h <;> exact Or.inl h.2
  | deleteMessageById messageId =>
    simp only [Atomic] at h
    split at h
    · exact Or.inl h.2
    · rename_i m hm
      obtain ⟨id, -, hm⟩ := Option.bind_eq_some_iff.mp hm
      exact Or.inr (Or.inr (Or.inl ⟨m, id, hm, h.2⟩))
  | updateMessageGivenMessageId messageId body =>
    cases body with
    | none => exact Or.inl h.2
    | some temp =>
      simp only [Atomic] at h
      split at h
      · rename_i newText m _ hm
        obtain ⟨id, -, hm⟩ := Option.bind_eq_some_iff.mp hm
        exact Or.inr (Or.inr (Or.inr ⟨m, id, newText, hm, h.2⟩))
      · exact Or.inl h.2
  | getAllMessagesFromUserAccountId accountId =>
    simp only [Atomic] at h
    split at h <;> exact Or.inl h.2

theorem Board.Ok.atomic {b c : Board} {request : Request} {r : Response} (hOk : b.Ok)
    (h : Atomic env b request r c) : c.Ok := by
  rcases atomic_cases h with rfl | ⟨m, -, rfl⟩ | ⟨m, id, hm, rfl⟩ | ⟨m, id, text, hm, rfl⟩
  · exact hOk
  · intro id m' hm'
    by_cases hId : id = m.messageId
    · subst hId
      simp only [Function.update_self, Option.some.injEq] at hm'
      exact ⟨hm' ▸ rfl, List.mem_cons_self⟩
    · simp only [Function.update_of_ne hId] at hm'
      exact ⟨(hOk id m' hm').1, List.mem_cons_of_mem _ (hOk id m' hm').2⟩
  · intro id' m' hm'
    by_cases hId : id' = m.messageId
    · subst hId
      simp at hm'
    · simp only [Function.update_of_ne hId] at hm'
      exact hOk id' m' hm'
  · intro id' m' hm'
    by_cases hId : id' = m.messageId
    · subst hId
      simp only [Function.update_self, Option.some.injEq] at hm'
      obtain ⟨rfl, hUsed⟩ := hOk id m hm
      exact ⟨hm' ▸ rfl, hUsed⟩
    · simp only [Function.update_of_ne hId] at hm'
      exact hOk id' m' hm'

/-- An id that is gone does not come back. -/
theorem Board.Gone.atomic {b c : Board} {request : Request} {r : Response} (hOk : b.Ok)
    (hGone : b.Gone id) (h : Atomic env b request r c) : c.Gone id := by
  obtain ⟨hUsed, hNone⟩ := hGone
  have hNe : ∀ id' m, b.messages id' = some m → id ≠ m.messageId := by
    rintro id' m hm rfl
    rw [(hOk id' m hm).1, hm] at hNone
    cases hNone
  rcases atomic_cases h with rfl | ⟨m, hNew, rfl⟩ | ⟨m, id', hm, rfl⟩ | ⟨m, id', text, hm, rfl⟩
  · exact ⟨hUsed, hNone⟩
  · have hId : id ≠ m.messageId := fun hEq => hNew (hEq ▸ hUsed)
    exact ⟨List.mem_cons_of_mem _ hUsed, (Function.update_of_ne hId ..).trans hNone⟩
  · exact ⟨hUsed, (Function.update_of_ne (hNe id' m hm) ..).trans hNone⟩
  · exact ⟨hUsed, (Function.update_of_ne (hNe id' m hm) ..).trans hNone⟩

theorem atomic_delete {b c : Board} {messageId : JavaString} (hOk : b.Ok)
    (h : Atomic env b (.deleteMessageById messageId) (.message m) c) :
    b.messages m.messageId = some m ∧ c.Gone m.messageId := by
  simp only [Atomic] at h
  split at h
  · cases h.1
  · rename_i m' hm'
    obtain ⟨hEq, rfl⟩ := h
    cases hEq
    obtain ⟨id, -, hm⟩ := Option.bind_eq_some_iff.mp hm'
    obtain ⟨rfl, hUsed⟩ := hOk id m hm
    exact ⟨hm, hUsed, Function.update_self ..⟩

theorem atomic_update {b c : Board} {messageId : JavaString} {temp : Message}
    (h : Atomic env b (.updateMessageGivenMessageId messageId (some temp)) (.message m) c) :
    m.messageText = temp.messageText := by
  simp only [Atomic] at h
  split at h
  · rename_i newText m' hText _
    obtain ⟨hEq, -⟩ := h
    cases hEq
    exact (acceptsText_eq_some hText).symm
  · cases h.1

/-- The request of `p` has deleted the message with the id. -/
def Deleted (requests : P → Request) (order : List (P × Response)) (p : P) (id : Int) : Prop :=
  ∃ messageId m, requests p = .deleteMessageById messageId ∧ (p, .message m) ∈ order ∧
    m.messageId = id

omit [DecidableEq P] in
theorem Deleted.snoc {e : P × Response} (h : Deleted requests (order ++ [e]) p id) :
    Deleted requests order p id ∨ ∃ messageId m, requests p = .deleteMessageById messageId ∧
      e = (p, .message m) ∧ m.messageId = id := by
  obtain ⟨messageId, m, hRequest, hMem, hId⟩ := h
  rcases List.mem_append.mp hMem with hMem | hMem
  · exact Or.inl ⟨messageId, m, hRequest, hMem, hId⟩
  · exact Or.inr ⟨messageId, m, hRequest, (List.mem_singleton.mp hMem).symm, hId⟩

omit [DecidableEq P] in
/-- One after the other, a message is deleted once, and its id does not come back. -/
theorem deleted_once {b : Board} (hOk : b₀.Ok)
    (h : Run (SequentialStep (Atomic env) requests) b₀ order b) :
    b.Ok ∧ (∀ p id, Deleted requests order p id → b.Gone id) ∧
      ∀ p q id, Deleted requests order p id → Deleted requests order q id → p = q := by
  induction h with
  | refl =>
    have hNone : ∀ p id, ¬ Deleted requests [] p id := by
      rintro p id ⟨_, _, _, hMem, _⟩
      cases hMem
    exact ⟨hOk, fun p id h => absurd h (hNone p id), fun p q id h => absurd h (hNone p id)⟩
  | @snoc order b c e prior last ih =>
    obtain ⟨hb, hGone, hOnce⟩ := ih
    refine ⟨hb.atomic last, ?_, ?_⟩
    · intro p id hDeleted
      rcases hDeleted.snoc with hOld | ⟨messageId, m, hRequest, rfl, rfl⟩
      · exact (hGone p id hOld).atomic hb last
      · rw [SequentialStep, hRequest] at last
        exact (atomic_delete hb last).2
    · -- a message that is deleted now has not been deleted before
      have hFirst : ∀ p q id, Deleted requests order p id → ∀ messageId m,
          requests q = .deleteMessageById messageId → e = (q, .message m) →
            m.messageId ≠ id := by
        rintro p q id hOld messageId m hRequest rfl rfl
        rw [SequentialStep, hRequest] at last
        have hNone := (hGone p _ hOld).2
        rw [(atomic_delete hb last).1] at hNone
        cases hNone
      intro p q id hp hq
      rcases hp.snoc with hp | ⟨messageId, m, hRequest, rfl, hId⟩
      · rcases hq.snoc with hq | ⟨messageId, m, hRequest, hEvent, hId⟩
        · exact hOnce p q id hp hq
        · exact absurd hId (hFirst p q id hp messageId m hRequest hEvent)
      · rcases hq.snoc with hq | ⟨_, _, _, hEvent, -⟩
        · exact absurd hId (hFirst q p id hq messageId m hRequest rfl)
        · cases hEvent
          rfl

omit [DecidableEq P] in
theorem patched_of_run {b : Board} {messageId : JavaString} {temp : Message}
    (h : Run (SequentialStep (Atomic env) requests) b₀ order b)
    (hRequest : requests p = .updateMessageGivenMessageId messageId (some temp))
    (hMem : (p, .message m) ∈ order) : m.messageText = temp.messageText := by
  induction h with
  | refl => cases hMem
  | snoc prior last ih =>
    rcases List.mem_append.mp hMem with hMem | hMem
    · exact ih hMem
    · rw [← List.mem_singleton.mp hMem, SequentialStep, hRequest] at last
      exact atomic_update last

/-! ## Responses -/

/-- What a client may expect of the responses in a history. -/
structure Explained (env : Environment) (requests : P → Request) (b₀ : Board)
    (history : List (Event P Response)) : Prop where
  linearizable : Linearizable (Atomic env) requests b₀ history
  deletedOnce : ∀ p q messageId messageId' m m', requests p = .deleteMessageById messageId →
    requests q = .deleteMessageById messageId' → .ret p (.message m) ∈ history →
    .ret q (.message m') ∈ history → m.messageId = m'.messageId → p = q
  patched : ∀ p messageId temp m,
    requests p = .updateMessageGivenMessageId messageId (some temp) →
    .ret p (.message m) ∈ history → m.messageText = temp.messageText

omit [DecidableEq P] in
theorem Explained.of_linearizable {history : List (Event P Response)} (hOk : b₀.Ok)
    (h : Linearizable (Atomic env) requests b₀ history) :
    Explained env requests b₀ history where
  linearizable := h
  deletedOnce p q messageId messageId' m m' hp hq hm hm' hId := by
    obtain ⟨order, b, hLin⟩ := h
    have hDeleted : Deleted requests order p m.messageId :=
      ⟨messageId, m, hp, hLin.returned _ _ hm, rfl⟩
    have hDeleted' : Deleted requests order q m.messageId :=
      ⟨messageId', m', hq, hLin.returned _ _ hm', hId.symm⟩
    exact (deleted_once hOk hLin.legal).2.2 p q _ hDeleted hDeleted'
  patched p messageId temp m hp hm := by
    obtain ⟨order, b, hLin⟩ := h
    exact patched_of_run hLin.legal hp (hLin.returned _ _ hm)

/-- **Linearizable requests.** When every `DELETE` and every last `SELECT` of an edit finds
what its own request has read or written, the responses are those of atomic requests. -/
theorem explained_of_undisturbed {tr : List (Action P)} (h₀ : Initial s)
    (h : Run (Guarded (Step env requests) Undisturbed) s tr t) :
    Explained env requests s.board t.history := by
  apply Explained.of_linearizable (board_ok h₀)
  have hInv : ∃ order, Inv env requests s.board t order := by
    apply h.invariant (I := fun t => ∃ order, Inv env requests s.board t order)
      ⟨[], inv_of_initial h₀⟩
    rintro t a u ⟨order, hInv⟩ ⟨hStep, hOk⟩
    exact hInv.step hOk hStep
  obtain ⟨order, hInv⟩ := hInv
  exact ⟨order, _, hInv.lin⟩

/-- One message, and a service that knows its poster. -/
def oneMessage : State Bool where
  rows := [⟨1, 1, some (javaString "hi"), 0⟩]
  used := [1]
  pc _ := .start
  history := []

theorem oneMessage_initial : Initial oneMessage where
  ids := List.nodup_singleton 1
  used := by simp [oneMessage]
  pc _ := rfl
  history := rfl

def oneAccount : Environment where
  accounts := [1]
  parseInt text := if text = javaString "1" then some 1 else none

/-- An edit, and a deletion that starts between the statements of the edit. -/
def editAndDelete : Bool → Request
  | false => .updateMessageGivenMessageId (javaString "1") (some ⟨0, 1, javaString "ho", 0⟩)
  | true => .deleteMessageById (javaString "1")

def editAndDelete_schedule : List (Action Bool) :=
  [⟨false, 2⟩, ⟨false, 2⟩, ⟨true, 2⟩, ⟨false, 2⟩, ⟨true, 2⟩]

theorem explained_editAndDelete : ∃ t : State Bool, t.history.length = 4 ∧
    Explained oneAccount editAndDelete oneMessage.board t.history := by
  have hRun : ∃ t : State Bool, editAndDelete_schedule.foldlM (fun s a =>
      if Undisturbed s a then step oneAccount editAndDelete s a else none) oneMessage = some t ∧
      t.history.length = 4 := by
    refine ⟨_, rfl, rfl⟩
  obtain ⟨t, hRun, hLength⟩ := hRun
  exact ⟨t, hLength, explained_of_undisturbed oneMessage_initial (Run.guarded_of_foldlM hRun)⟩

/-- Two deletions read the message before either of them deletes it. -/
theorem not_forall_explained : ¬ ∀ (P : Type) [DecidableEq P] (env : Environment)
    (requests : P → Request) (s t : State P) (tr : List (Action P)), Initial s →
    Run (Step env requests) s tr t → Explained env requests s.board t.history := by
  intro hAll
  have hRun : ∃ t : State Bool, [⟨false, 2⟩, ⟨true, 2⟩, ⟨false, 2⟩, ⟨true, 2⟩].foldlM
      (step oneAccount fun _ => .deleteMessageById (javaString "1")) oneMessage = some t ∧
      ∀ p, .ret p (.message ⟨1, 1, some (javaString "hi"), 0⟩) ∈ t.history := by
    refine ⟨_, rfl, ?_⟩
    decide
  obtain ⟨t, hRun, hRet⟩ := hRun
  have hOnce := (hAll Bool oneAccount _ _ t _ oneMessage_initial
    (Run.of_foldlM hRun)).deletedOnce false true _ _ _ _ rfl rfl (hRet false) (hRet true) rfl
  cases hOnce

end Windborne.Javalin
