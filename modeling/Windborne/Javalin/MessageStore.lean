import Windborne.Javalin.MessageLinearizability

/-!
# The message store is a map

Requests one after the other, each run to its end. Between them registrations may change the
accounts. A request that runs alone is answered in this way, and the responses are those of a map
from ids to messages in which ids are never used again.
-/

namespace Windborne.Javalin

open Library
open Spring (JavaString javaString)

/-- The rows of the message table and the keys that it has generated. -/
structure MessageTable where
  rows : List Message
  used : List Int

/-- A complete request, with the accounts that exist at its time and the next generated key. -/
structure Complete where
  request : Request
  accounts : List Int
  key : Int

namespace MessageTable

/-! ## `MessageService` and the handlers -/

/-- The foreign key rejects a poster without an account. -/
def insertMessage (env : Environment) (key : Int) (s : MessageTable) (m : Message) :
    Option Message × MessageTable :=
  if m.postedBy ∈ env.accounts then
    let createdMessage := { m with messageId := key }
    (some createdMessage, { rows := s.rows ++ [createdMessage], used := key :: s.used })
  else (none, s)

def addMessage (env : Environment) (key : Int) (s : MessageTable) (body : Option Message) :
    Option Message × MessageTable :=
  match acceptsNew body with
  | none => (none, s)
  | some m => if userExists env m then s.insertMessage env key m else (none, s)

def deleteMessageById (s : MessageTable) (id : Int) : Option Message × MessageTable :=
  match getMessageById s.rows id with
  | none => (none, s)
  | some m => (some m, { s with rows := removeMessageById s.rows id })

def updateMessageById (env : Environment) (s : MessageTable) (htmlId : JavaString)
    (newText : Option JavaString) : Option Message × MessageTable :=
  match acceptsText newText with
  | none => (none, s)
  | some newText =>
    match env.parseInt htmlId with
    | none => (none, s)
    | some id =>
      match getMessageById s.rows id with
      | none => (none, s)
      | some _ =>
        let rows := updateMessageTextById s.rows id newText
        (getMessageById rows id, { s with rows })

def getMessagesFromUserId (env : Environment) (s : MessageTable) (htmlId : JavaString) :
    Option (List Message) :=
  (env.parseInt htmlId).map (selectAllMessagesByUserId s.rows)

/-- The handlers of the controller. -/
def serve (env : Environment) (key : Int) (s : MessageTable) : Request → Response × MessageTable
  | .newMessage body =>
    match s.addMessage env key body with
    | (none, s) => (.badRequest, s)
    | (some m, s) => (.message m, s)
  | .getAllMessages => (.messages s.rows, s)
  | .getMessageById messageId =>
    match env.parseInt messageId with
    | none => (.empty, s)
    | some id =>
      match getMessageById s.rows id with
      | none => (.empty, s)
      | some m => (.message m, s)
  | .deleteMessageById messageId =>
    match env.parseInt messageId with
    | none => (.empty, s)
    | some id =>
      match s.deleteMessageById id with
      | (none, s) => (.empty, s)
      | (some m, s) => (.message m, s)
  | .updateMessageGivenMessageId _ none => (.serverError, s)
  | .updateMessageGivenMessageId messageId (some temp) =>
    match s.updateMessageById env messageId temp.messageText with
    | (none, s) => (.badRequest, s)
    | (some m, s) => (.message m, s)
  | .getAllMessagesFromUserAccountId accountId =>
    match s.getMessagesFromUserId env accountId with
    | none => (.serverError, s)
    | some ms => (.messages ms, s)

/-- A request and its response; the generated key is a new one. -/
def Serve (parseInt : JavaString → Option Int) (s : MessageTable) (a : Complete × Response)
    (t : MessageTable) : Prop :=
  a.1.key ∉ s.used ∧ serve ⟨a.1.accounts, parseInt⟩ a.1.key s a.1.request = (a.2, t)

/-- The message of `SocialMedia.sql`. -/
def seeded : MessageTable where
  rows := [⟨1, 1, javaString "test message 1", 1669947792⟩]
  used := [1]

def board (s : MessageTable) : Board := ⟨getMessageById s.rows, s.used⟩

end MessageTable

/-! ## A request that runs alone -/

section Alone

variable {P : Type} {env : Environment} {requests : P → Request} {s t : State P} {p : P}
  {key : Int}

def State.table (s : State P) : MessageTable := ⟨s.rows, s.used⟩

@[simp]
theorem rows_table (s : State P) : s.table.rows = s.rows := rfl

@[simp]
theorem rows_call (s : State P) (p : P) : (s.call p).rows = s.rows := rfl

@[simp]
theorem table_call (s : State P) (p : P) : (s.call p).table = s.table := rfl

variable [DecidableEq P]

@[simp]
theorem rows_goto (s : State P) (p : P) (pc : Pc) : (s.goto p pc).rows = s.rows := rfl

@[simp]
theorem table_goto (s : State P) (p : P) (pc : Pc) : (s.goto p pc).table = s.table := rfl

theorem pc_goto (s : State P) (p : P) (pc : Pc) : (s.goto p pc).pc p = pc :=
  Function.update_self ..

/-- Only one process takes steps. -/
def Alone (env : Environment) (requests : P → Request) (a : Action P) (s t : State P) : Prop :=
  ∃ n, Run (Step env requests) s (List.replicate n a) t

/-- Alone, the request of `p` is answered, and leaves this table. -/
def AnswersAlone (env : Environment) (requests : P → Request) (key : Int) (s : State P) (p : P)
    (answer : Response × MessageTable) : Prop :=
  ∃ t, Alone env requests ⟨p, key⟩ s t ∧ t.pc p = .done answer.1 ∧ t.table = answer.2

theorem Alone.step {a : Action P} {u : State P} (h : Alone env requests a s t)
    (hStep : Step env requests t a u) : Alone env requests a s u := by
  obtain ⟨n, hRun⟩ := h
  refine ⟨n + 1, ?_⟩
  rw [List.replicate_succ']
  exact hRun.snoc hStep

theorem alone_begin (hpc : s.pc p = .start) (hBegin : begin_ env (s.call p) p (requests p) = t) :
    Alone env requests ⟨p, key⟩ s t :=
  Alone.step ⟨0, .refl⟩ (by simp [Step, step, hpc, hBegin])

theorem Alone.finish {r : Response} (h : Alone env requests ⟨p, key⟩ s (t.finish p r)) :
    AnswersAlone env requests key s p (r, t.table) :=
  ⟨_, h, Function.update_self .., rfl⟩

/-- The first step answers. -/
theorem answersAlone_begin {r : Response} {answer : Response × MessageTable}
    (hpc : s.pc p = .start)
    (hBegin : begin_ env (s.call p) p (requests p) = (s.call p).finish p r)
    (hAnswer : answer = (r, s.table)) : AnswersAlone env requests key s p answer := by
  rw [hAnswer]
  exact (alone_begin hpc hBegin).finish

theorem step_insert {m : Message} (hpc : t.pc p = .insert m) (hPoster : m.postedBy ∈ env.accounts)
    (hKey : key ∉ t.used) : Step env requests t ⟨p, key⟩
      { t.finish p (.message { m with messageId := key }) with
        rows := t.rows ++ [{ m with messageId := key }]
        used := key :: t.used } := by
  simp [Step, step, hpc, insertMessage, hPoster, hKey]

theorem step_insert_rejected {m : Message} (hpc : t.pc p = .insert m)
    (hPoster : m.postedBy ∉ env.accounts) :
    Step env requests t ⟨p, key⟩ (t.finish p .badRequest) := by
  simp [Step, step, hpc, insertMessage, hPoster]

/-- The `INSERT`. -/
theorem answersAlone_insert {m : Message} (hpc : s.pc p = .start) (hKey : key ∉ s.used)
    (hBegin : begin_ env (s.call p) p (requests p) = (s.call p).goto p (.insert m)) :
    AnswersAlone env requests key s p (((s.table.insertMessage env key m).1).elim .badRequest
      .message, (s.table.insertMessage env key m).2) := by
  have hAlone : Alone env requests ⟨p, key⟩ s _ := alone_begin hpc hBegin
  by_cases hPoster : m.postedBy ∈ env.accounts
  · simp only [MessageTable.insertMessage, if_pos hPoster]
    exact ⟨_, hAlone.step (step_insert (pc_goto ..) hPoster hKey), Function.update_self .., rfl⟩
  · simp only [MessageTable.insertMessage, if_neg hPoster]
    exact (hAlone.step (step_insert_rejected (pc_goto ..) hPoster)).finish

theorem step_delete {id : Int} {m : Message} (hpc : t.pc p = .delete id m) :
    Step env requests t ⟨p, key⟩
      { t.finish p (.message m) with rows := removeMessageById t.rows id } := by
  simp [Step, step, hpc]

/-- The `DELETE` after the `SELECT`. -/
theorem answersAlone_delete {id : Int} {m : Message} (hpc : s.pc p = .start)
    (hBegin : begin_ env (s.call p) p (requests p) = (s.call p).goto p (.delete id m)) :
    AnswersAlone env requests key s p
      (.message m, { s.table with rows := removeMessageById s.rows id }) := by
  have hAlone : Alone env requests ⟨p, key⟩ s _ := alone_begin hpc hBegin
  exact ⟨_, hAlone.step (step_delete (pc_goto ..)), Function.update_self .., rfl⟩

theorem step_update {id : Int} {newText : JavaString} (hpc : t.pc p = .update id newText) :
    Step env requests t ⟨p, key⟩
      { t.goto p (.reselect id newText (getMessageById t.rows id).isSome) with
        rows := updateMessageTextById t.rows id newText } := by
  simp [Step, step, hpc]

theorem step_reselect {id : Int} {newText : JavaString} {matched : Bool}
    (hpc : t.pc p = .reselect id newText matched) : Step env requests t ⟨p, key⟩
      (t.finish p ((getMessageById t.rows id).elim .badRequest .message)) := by
  cases hFound : getMessageById t.rows id with
  | none => simp [Step, step, hpc, hFound]
  | some m => simp [Step, step, hpc, hFound]

/-- The `UPDATE` and the last `SELECT`. -/
theorem answersAlone_update {id : Int} {newText : JavaString} (hpc : s.pc p = .start)
    (hBegin : begin_ env (s.call p) p (requests p) = (s.call p).goto p (.update id newText)) :
    AnswersAlone env requests key s p
      ((getMessageById (updateMessageTextById s.rows id newText) id).elim .badRequest .message,
        { s.table with rows := updateMessageTextById s.rows id newText }) := by
  have hAlone : Alone env requests ⟨p, key⟩ s _ := alone_begin hpc hBegin
  have hUpdated := hAlone.step (step_update (pc_goto ..))
  exact (hUpdated.step (step_reselect (Function.update_self ..))).finish

theorem serve_alone_update {messageId : JavaString} {temp : Message} (hpc : s.pc p = .start)
    (hRequest : requests p = .updateMessageGivenMessageId messageId (some temp)) :
    AnswersAlone env requests key s p
      (s.table.serve env key (.updateMessageGivenMessageId messageId (some temp))) := by
  simp only [MessageTable.serve, MessageTable.updateMessageById, rows_table]
  cases hText : acceptsText temp.messageText with
  | none => exact answersAlone_begin hpc (by simp [hRequest, begin_, hText]) rfl
  | some newText =>
    cases hId : env.parseInt messageId with
    | none => exact answersAlone_begin hpc (by simp [hRequest, begin_, hText, hId]) rfl
    | some id =>
      cases hFound : getMessageById s.rows id with
      | none =>
        simp only [hFound]
        exact answersAlone_begin hpc (by simp [hRequest, begin_, hText, hId, hFound]) rfl
      | some m =>
        have hBegin : begin_ env (s.call p) p (requests p) =
            (s.call p).goto p (.update id newText) := by
          simp [hRequest, begin_, hText, hId, hFound]
        have hAnswer : AnswersAlone env requests key s p _ := answersAlone_update hpc hBegin
        simp only [hFound]
        cases hAfter : getMessageById (updateMessageTextById s.rows id newText) id with
        | none =>
          rw [hAfter] at hAnswer
          exact hAnswer
        | some m' =>
          rw [hAfter] at hAnswer
          exact hAnswer

/-- **A request that runs alone** is answered as `serve` says. -/
theorem serve_alone (hpc : s.pc p = .start) (hKey : key ∉ s.used) :
    AnswersAlone env requests key s p (s.table.serve env key (requests p)) := by
  generalize hRequest : requests p = request
  cases request with
  | newMessage body =>
    simp only [MessageTable.serve, MessageTable.addMessage]
    cases hBody : acceptsNew body with
    | none => exact answersAlone_begin hpc (by simp [hRequest, begin_, hBody]) rfl
    | some m =>
      have hBegin : begin_ env (s.call p) p (requests p) = (s.call p).goto p (.insert m) := by
        simp [hRequest, begin_, hBody, userExists]
      have hAnswer : AnswersAlone env requests key s p _ := answersAlone_insert hpc hKey hBegin
      simp only [userExists, if_true]
      rcases hInsert : s.table.insertMessage env key m with ⟨_ | m', table⟩
      · rw [hInsert] at hAnswer
        exact hAnswer
      · rw [hInsert] at hAnswer
        exact hAnswer
  | getAllMessages => exact answersAlone_begin hpc (by rw [hRequest]; rfl) rfl
  | getMessageById messageId =>
    simp only [MessageTable.serve, rows_table]
    cases hId : env.parseInt messageId with
    | none => exact answersAlone_begin hpc (by simp [hRequest, begin_, hId]) rfl
    | some id =>
      cases hFound : getMessageById s.rows id with
      | none =>
        simp only [hFound]
        exact answersAlone_begin hpc (by simp [hRequest, begin_, hId, hFound]) rfl
      | some m =>
        simp only [hFound]
        exact answersAlone_begin hpc (by simp [hRequest, begin_, hId, hFound]) rfl
  | deleteMessageById messageId =>
    simp only [MessageTable.serve, MessageTable.deleteMessageById, rows_table]
    cases hId : env.parseInt messageId with
    | none => exact answersAlone_begin hpc (by simp [hRequest, begin_, hId]) rfl
    | some id =>
      cases hFound : getMessageById s.rows id with
      | none =>
        simp only [hFound]
        exact answersAlone_begin hpc (by simp [hRequest, begin_, hId, hFound]) rfl
      | some m =>
        simp only [hFound]
        exact answersAlone_delete hpc (by simp [hRequest, begin_, hId, hFound])
  | updateMessageGivenMessageId messageId body =>
    cases body with
    | none => exact answersAlone_begin hpc (by rw [hRequest]; rfl) rfl
    | some temp => exact serve_alone_update hpc hRequest
  | getAllMessagesFromUserAccountId accountId =>
    simp only [MessageTable.serve, MessageTable.getMessagesFromUserId, rows_table]
    cases hId : env.parseInt accountId with
    | none => exact answersAlone_begin hpc (by simp [hRequest, begin_, hId]) rfl
    | some id => exact answersAlone_begin hpc (by simp [hRequest, begin_, hId]) rfl

end Alone

/-! ## The map -/

namespace Board

/-- The live message that a path parameter names. -/
def named (b : Board) (parseInt : JavaString → Option Int) (p : JavaString) : Option Message :=
  (parseInt p).bind b.messages

/-- The board with `m` under its id. -/
def put (b : Board) (m : Message) : Board :=
  { b with messages := Function.update b.messages m.messageId (some m) }

def remove (b : Board) (id : Int) : Board :=
  { b with messages := Function.update b.messages id none }

end Board

/-- A text that a message may have at creation. -/
def NewText (text : Option JavaString) : Prop := ∃ t ∈ text, t ≠ [] ∧ t.length < 255

/-- A text that a message may be given later. -/
def EditText (text : Option JavaString) : Prop := ∃ t ∈ text, t ≠ [] ∧ t.length ≤ 255

/-- The map answers a request with `r` and goes on as `c`. -/
def MapAnswers (parseInt : JavaString → Option Int) (accounts : List Int) (b : Board)
    (r : Response) (c : Board) : Request → Prop
  | .newMessage body =>
    (∃ m ∈ body, m.postedBy ∈ accounts ∧ NewText m.messageText ∧ ∃ id ∉ b.used,
      r = .message { m with messageId := id } ∧
        c = { b.put { m with messageId := id } with used := id :: b.used }) ∨
      (∀ m ∈ body, ¬(m.postedBy ∈ accounts ∧ NewText m.messageText)) ∧ r = .badRequest ∧ c = b
  | .getAllMessages => ∃ ms, Lists b (fun _ => True) ms ∧ r = .messages ms ∧ c = b
  | .getMessageById p => r = (b.named parseInt p).elim .empty .message ∧ c = b
  | .deleteMessageById p =>
    r = (b.named parseInt p).elim .empty .message ∧ c = (parseInt p).elim b b.remove
  | .updateMessageGivenMessageId _ none => r = .serverError ∧ c = b
  | .updateMessageGivenMessageId p (some temp) =>
    (∃ m ∈ b.named parseInt p, EditText temp.messageText ∧
      r = .message { m with messageText := temp.messageText } ∧
        c = b.put { m with messageText := temp.messageText }) ∨
      (b.named parseInt p = none ∨ ¬EditText temp.messageText) ∧ r = .badRequest ∧ c = b
  | .getAllMessagesFromUserAccountId p =>
    match parseInt p with
    | none => r = .serverError ∧ c = b
    | some id => ∃ ms, Lists b (fun m => m.postedBy = id) ms ∧ r = .messages ms ∧ c = b

/-- A step of the map. -/
def MapStep (parseInt : JavaString → Option Int) (b : Board) (a : Complete × Response)
    (c : Board) : Prop := MapAnswers parseInt a.1.accounts b a.2 c a.1.request

/-! ## The refinement -/

variable {parseInt : JavaString → Option Int} {accounts : List Int} {s t : MessageTable}
  {key : Int}

theorem acceptsNew_eq_some_iff {body : Option Message} {m : Message} :
    acceptsNew body = some m ↔ body = some m ∧ NewText m.messageText := by
  cases body with
  | none => simp [acceptsNew]
  | some m' =>
    cases hText : m'.messageText with
    | none =>
      simp only [acceptsNew, hText, reduceCtorEq, Option.some.injEq, false_iff]
      rintro ⟨rfl, t, hSome, -⟩
      rw [hText] at hSome
      cases hSome
    | some text =>
      have hNew : NewText m'.messageText ↔ text ≠ [] ∧ text.length < 255 := by
        simp [NewText, hText]
      simp only [acceptsNew, hText]
      split_ifs with hBlank hLong
      · simp only [Option.some.injEq, false_iff]
        rintro ⟨rfl, hText'⟩
        exact (hNew.mp hText').1 hBlank
      · simp only [Option.some.injEq, false_iff]
        rintro ⟨rfl, hText'⟩
        exact absurd (hNew.mp hText').2 (by omega)
      · constructor
        · rintro ⟨⟩
          exact ⟨rfl, hNew.mpr ⟨hBlank, by omega⟩⟩
        · rintro ⟨hSame, -⟩
          exact hSame

theorem acceptsText_eq_some_iff {text : Option JavaString} {newText : JavaString} :
    acceptsText text = some newText ↔ text = some newText ∧ EditText text := by
  cases text with
  | none => simp [acceptsText]
  | some text =>
    have hEdit : EditText (some text) ↔ text.length ≠ 0 ∧ text.length ≤ 255 := by
      simp [EditText]
    rw [hEdit]
    simp only [acceptsText]
    split_ifs with hBad
    · simp only [false_iff]
      rintro ⟨-, hBlank, hLong⟩
      omega
    · constructor
      · rintro ⟨⟩
        exact ⟨rfl, by omega⟩
      · rintro ⟨hSame, -⟩
        exact hSame

namespace MessageTable

/-- Messages with different ids, all of them generated. -/
structure Sound (s : MessageTable) : Prop where
  ids : (s.rows.map Message.messageId).Nodup
  used : ∀ m ∈ s.rows, m.messageId ∈ s.used

theorem seeded_sound : seeded.Sound where
  ids := by simp [seeded]
  used := by simp [seeded]

theorem insertMessage_spec (hs : s.Sound) {env : Environment} (hKey : key ∉ s.used) (m : Message)
    (hPoster : m.postedBy ∈ env.accounts) :
    ∃ t, s.insertMessage env key m = (some { m with messageId := key }, t) ∧ t.Sound ∧
      t.board = { s.board.put { m with messageId := key } with used := key :: s.used } := by
  have hFresh : ∀ m' ∈ s.rows, m'.messageId ≠ key := by
    rintro m' hm rfl
    exact hKey (hs.used m' hm)
  refine ⟨_, if_pos hPoster, ⟨?_, ?_⟩, ?_⟩
  · exact nodup_map_snoc_iff.mpr ⟨hs.ids, hFresh⟩
  · exact forall_mem_snoc (fun m' hm => List.mem_cons_of_mem _ (hs.used m' hm)) List.mem_cons_self
  · show (⟨getMessageById (s.rows ++ [{ m with messageId := key }]), key :: s.used⟩ : Board) = _
    rw [getMessageById_append (show ∀ m' ∈ s.rows,
      m'.messageId ≠ ({ m with messageId := key } : Message).messageId from hFresh)]
    rfl

theorem delete_spec (hs : s.Sound) (id : Int) :
    (s.deleteMessageById id).1 = getMessageById s.rows id ∧ (s.deleteMessageById id).2.Sound ∧
      (s.deleteMessageById id).2.board = s.board.remove id := by
  unfold deleteMessageById
  cases hFound : getMessageById s.rows id with
  | none =>
    refine ⟨rfl, hs, ?_⟩
    have hSame : Function.update (getMessageById s.rows) id none = getMessageById s.rows := by
      rw [← hFound, Function.update_eq_self]
    show (⟨_, _⟩ : Board) = ⟨Function.update (getMessageById s.rows) id none, s.used⟩
    rw [hSame]
  | some m =>
    refine ⟨rfl, ⟨?_, ?_⟩, ?_⟩
    · exact hs.ids.sublist (List.filter_sublist.map _)
    · exact fun m' hm => hs.used m' (List.mem_of_mem_filter hm)
    · show (⟨getMessageById (removeMessageById s.rows id), s.used⟩ : Board) = _
      rw [getMessageById_remove]
      rfl

theorem update_spec (hs : s.Sound) {id : Int} {m : Message} (newText : JavaString)
    (hFound : getMessageById s.rows id = some m) :
    getMessageById (updateMessageTextById s.rows id newText) id =
        some { m with messageText := newText } ∧
      ({ s with rows := updateMessageTextById s.rows id newText } : MessageTable).Sound ∧
        ({ s with rows := updateMessageTextById s.rows id newText } : MessageTable).board =
          s.board.put { m with messageText := newText } := by
  have hId := (mem_of_getMessageById hFound).2
  have hAfter : getMessageById (updateMessageTextById s.rows id newText) = _ :=
    getMessageById_update_some hFound
  refine ⟨?_, ⟨?_, ?_⟩, ?_⟩
  · rw [hAfter, ← hId, Function.update_self]
  · rw [map_messageId_update]
    exact hs.ids
  · intro m' hm
    have hMem := List.mem_map_of_mem (f := Message.messageId) hm
    rw [map_messageId_update] at hMem
    obtain ⟨old, hOld, hSame⟩ := List.mem_map.mp hMem
    rw [← hSame]
    exact hs.used old hOld
  · show (⟨getMessageById (updateMessageTextById s.rows id newText), s.used⟩ : Board) = _
    rw [hAfter]
    rfl

theorem serve_newMessage (hs : s.Sound) {env : Environment} (hKey : key ∉ s.used)
    (body : Option Message) : ∃ r t, serve env key s (.newMessage body) = (r, t) ∧ t.Sound ∧
      MapAnswers env.parseInt env.accounts s.board r t.board (.newMessage body) := by
  cases hAccepts : acceptsNew body with
  | none =>
    refine ⟨.badRequest, s, ?_, hs, Or.inr ⟨?_, rfl, rfl⟩⟩
    · simp [serve, addMessage, hAccepts]
    · rintro m hm ⟨-, hText⟩
      rw [acceptsNew_eq_some_iff.mpr ⟨hm, hText⟩] at hAccepts
      cases hAccepts
  | some m =>
    obtain ⟨rfl, hText⟩ := acceptsNew_eq_some_iff.mp hAccepts
    by_cases hPoster : m.postedBy ∈ env.accounts
    · obtain ⟨t, hInsert, hSound, hBoard⟩ := insertMessage_spec hs hKey m hPoster
      refine ⟨.message { m with messageId := key }, t, ?_, hSound,
        Or.inl ⟨m, rfl, hPoster, hText, key, hKey, rfl, hBoard⟩⟩
      simp [serve, addMessage, hAccepts, userExists, hInsert]
    · refine ⟨.badRequest, s, ?_, hs, Or.inr ⟨?_, rfl, rfl⟩⟩
      · simp [serve, addMessage, hAccepts, userExists, insertMessage, hPoster]
      · rintro m' ⟨⟩ ⟨hPoster', -⟩
        exact hPoster hPoster'

theorem serve_update (hs : s.Sound) {env : Environment} (messageId : JavaString)
    (temp : Message) : ∃ r t,
      serve env key s (.updateMessageGivenMessageId messageId (some temp)) = (r, t) ∧ t.Sound ∧
        MapAnswers env.parseInt env.accounts s.board r t.board
          (.updateMessageGivenMessageId messageId (some temp)) := by
  cases hAccepts : acceptsText temp.messageText with
  | none =>
    refine ⟨.badRequest, s, ?_, hs, Or.inr ⟨Or.inr ?_, rfl, rfl⟩⟩
    · simp [serve, updateMessageById, hAccepts]
    · intro hEdit
      obtain ⟨newText, hText, -⟩ := id hEdit
      rw [acceptsText_eq_some_iff.mpr ⟨hText, hEdit⟩] at hAccepts
      cases hAccepts
  | some newText =>
    obtain ⟨hText, hEdit⟩ := acceptsText_eq_some_iff.mp hAccepts
    cases hNamed : s.board.named env.parseInt messageId with
    | none =>
      refine ⟨.badRequest, s, ?_, hs, Or.inr ⟨Or.inl hNamed, rfl, rfl⟩⟩
      cases hId : env.parseInt messageId with
      | none => simp [serve, updateMessageById, hAccepts, hId]
      | some id =>
        have hFound : getMessageById s.rows id = none := by
          simpa [Board.named, hId, board] using hNamed
        simp [serve, updateMessageById, hAccepts, hId, hFound]
    | some m =>
      obtain ⟨id, hId, hFound⟩ := Option.bind_eq_some_iff.mp hNamed
      replace hFound : getMessageById s.rows id = some m := hFound
      obtain ⟨hAfter, hSound, hBoard⟩ := update_spec hs newText hFound
      rw [← hText] at hAfter hBoard
      refine ⟨.message { m with messageText := temp.messageText }, _, ?_, hSound,
        Or.inl ⟨m, hNamed, hEdit, rfl, hBoard⟩⟩
      simp [serve, updateMessageById, hAccepts, hId, hFound, hAfter]

/-- **Step lemma.** -/
theorem serve_spec (hs : s.Sound) (env : Environment) (hKey : key ∉ s.used) (request : Request) :
    ∃ r t, serve env key s request = (r, t) ∧ t.Sound ∧
      MapAnswers env.parseInt env.accounts s.board r t.board request := by
  cases request with
  | newMessage body => exact serve_newMessage hs hKey body
  | getAllMessages => exact ⟨_, s, rfl, hs, _, lists_rows hs.ids _, rfl, rfl⟩
  | getMessageById messageId =>
    refine ⟨_, s, ?_, hs, rfl, rfl⟩
    cases hId : env.parseInt messageId with
    | none => simp [serve, Board.named, hId]
    | some id =>
      cases hFound : getMessageById s.rows id with
      | none => simp [serve, Board.named, board, hId, hFound]
      | some m => simp [serve, Board.named, board, hId, hFound]
  | deleteMessageById messageId =>
    cases hId : env.parseInt messageId with
    | none =>
      refine ⟨.empty, s, ?_, hs, ?_⟩
      · simp [serve, hId]
      · simp [MapAnswers, Board.named, hId]
    | some id =>
      obtain ⟨hAnswer, hSound, hBoard⟩ := delete_spec hs id
      refine ⟨(getMessageById s.rows id).elim .empty .message, _, ?_, hSound, ?_⟩
      · rw [← hAnswer]
        simp only [serve, hId]
        cases hDelete : s.deleteMessageById id with
        | mk m t =>
          cases m with
          | none => rfl
          | some m => rfl
      · simpa [MapAnswers, Board.named, hId, board] using hBoard
  | updateMessageGivenMessageId messageId body =>
    cases body with
    | none => exact ⟨.serverError, s, rfl, hs, rfl, rfl⟩
    | some temp => exact serve_update hs messageId temp
  | getAllMessagesFromUserAccountId accountId =>
    cases hId : env.parseInt accountId with
    | none =>
      refine ⟨.serverError, s, ?_, hs, ?_⟩
      · simp [serve, getMessagesFromUserId, hId]
      · simp [MapAnswers, hId]
    | some id =>
      refine ⟨.messages (selectAllMessagesByUserId s.rows id), s, ?_, hs, ?_⟩
      · simp [serve, getMessagesFromUserId, hId]
      · have hLists : Lists s.board _ _ := lists_byUser hs.ids s.used id
        simpa [MapAnswers, hId] using hLists

theorem Serve.spec (hs : s.Sound) {a : Complete × Response} (h : Serve parseInt s a t) :
    t.Sound ∧ MapStep parseInt s.board a t.board := by
  obtain ⟨hKey, hServe⟩ := h
  obtain ⟨r, u, hEq, hSound, hAnswers⟩ :=
    serve_spec hs ⟨a.1.accounts, parseInt⟩ hKey a.1.request
  cases hServe.symm.trans hEq
  exact ⟨hSound, hAnswers⟩

end MessageTable

open MessageTable

/-- **The message store is a map.** The responses to any sequence of requests are those of the
map, and deleting once more finds nothing and changes nothing. -/
theorem message_store_is_map {tr : List (Complete × Response)}
    (h : Run (Serve parseInt) seeded tr s) :
    Run (MapStep parseInt) seeded.board tr s.board ∧
      ∀ messageId a b r r' t u, a.request = .deleteMessageById messageId →
        b.request = .deleteMessageById messageId → Serve parseInt s (a, r) t →
          Serve parseInt t (b, r') u → r' = .empty ∧ u.board = t.board := by
  obtain ⟨hSound, hRun⟩ := h.simulate (f := board) seeded_sound fun _ _ _ hs => Serve.spec hs
  refine ⟨hRun, ?_⟩
  intro messageId a b r r' t u ha hb hFirst hSecond
  obtain ⟨hSoundT, hStep⟩ := hFirst.spec hSound
  obtain ⟨-, hStep'⟩ := hSecond.spec hSoundT
  unfold MapStep at hStep hStep'
  rw [ha] at hStep
  rw [hb] at hStep'
  obtain ⟨-, hRemoved⟩ := hStep
  obtain ⟨hAnswer, hSame⟩ := hStep'
  cases hId : parseInt messageId with
  | none =>
    rw [hId] at hSame
    refine ⟨?_, hSame⟩
    refine hAnswer.trans ?_
    rw [Board.named, hId]
    rfl
  | some id =>
    rw [hId] at hRemoved hSame
    have hNone : t.board.messages id = none := by
      rw [hRemoved]
      exact Function.update_self ..
    refine ⟨?_, ?_⟩
    · refine hAnswer.trans ?_
      rw [Board.named, hId, Option.bind_some, hNone]
      rfl
    · rw [hSame]
      show Board.remove t.board id = t.board
      unfold Board.remove
      rw [← hNone, Function.update_eq_self]

/-- `Integer.parseInt` on the parameter of the short run. -/
def parseTwo (p : JavaString) : Option Int := if p = javaString "2" then some 2 else none

/-- The body of the short run. -/
def hello : Message := ⟨0, 1, javaString "hello", 5⟩

/-- A message is created and deleted, and another `DELETE` finds nothing. -/
theorem message_store_is_map_short : ∃ t : MessageTable, t.rows = seeded.rows ∧ t.used = [2, 1] ∧
    Run (MapStep parseTwo) seeded.board
      [(⟨.newMessage hello, [1], 2⟩, .message { hello with messageId := 2 }),
        (⟨.deleteMessageById (javaString "2"), [1], 3⟩, .message { hello with messageId := 2 }),
        (⟨.deleteMessageById (javaString "2"), [1], 3⟩, .empty)] t.board := by
  have hCreate : Run (Serve parseTwo) seeded
      [(⟨.newMessage hello, [1], 2⟩, .message { hello with messageId := 2 })]
      ⟨seeded.rows ++ [{ hello with messageId := 2 }], [2, 1]⟩ :=
    .single ⟨by decide, rfl⟩
  have hDelete := Run.snoc hCreate (a := (⟨.deleteMessageById (javaString "2"), [1], 3⟩,
    .message { hello with messageId := 2 })) (u := ⟨seeded.rows, [2, 1]⟩) ⟨by decide, rfl⟩
  have hAgain := Run.snoc hDelete (a := (⟨.deleteMessageById (javaString "2"), [1], 3⟩, .empty))
    (u := ⟨seeded.rows, [2, 1]⟩) ⟨by decide, rfl⟩
  exact ⟨⟨seeded.rows, [2, 1]⟩, rfl, rfl, (message_store_is_map hAgain).1⟩

end Windborne.Javalin
