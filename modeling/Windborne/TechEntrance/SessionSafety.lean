import Windborne.TechEntrance.Sessions

/-!
# When sessions survive concurrent profile edits

A profile edit saves the whole row that it has read, the session id included. Saved after a
login of the same user, it puts the old session id back. The sessions of all users are
honoured throughout exactly in the runs in which no edit does so; logins alone, even of the
same user, do no harm.
-/

namespace Windborne.TechEntrance

open Library

variable {Uuid : Type} [DecidableEq Uuid] {P : Type} {F : UuidFormat Uuid}
  {requests : P → Request} {s t : State Uuid P} {a : Action Uuid P}

/-! ## Accepted session ids -/

theorem mem_sessionsOf {log : List (Uuid × Uuid)} {user id : Uuid} :
    id ∈ sessionsOf log user ↔ (user, id) ∈ log := by
  simp [sessionsOf]

theorem sessionsOf_nodup {log : List (Uuid × Uuid)} (h : (log.map Prod.snd).Nodup)
    (user : Uuid) : (sessionsOf log user).Nodup :=
  h.sublist (List.filter_sublist.map _)

theorem sessionsOf_append (log : List (Uuid × Uuid)) (user id other : Uuid) :
    sessionsOf (log ++ [(user, id)]) other =
      if user = other then sessionsOf log other ++ [id] else sessionsOf log other := by
  unfold sessionsOf
  split_ifs with h <;> simp [h]

theorem validateSession_single (db : List (User Uuid)) (id : Uuid) {cookie : Cookie}
    (hName : cookie.name = Spring.javaString "SessionId") (hValue : cookie.value = F.toString id) :
    (∃ answer, validateSession F db [cookie] = .ok (some answer)) ↔
      ∃ user, db.filter (·.sessionId = some id) = [user] := by
  rw [validateSession, if_pos hName, hValue, F.fromString_toString]
  dsimp only [UserRepository.findBySessionId]
  generalize db.filter (·.sessionId = some id) = rows
  rcases rows with _ | ⟨x, _ | ⟨y, rest⟩⟩ <;> simp [single, validateSession]

theorem accepts_iff (db : List (User Uuid)) (id : Uuid) :
    Accepts F db id ↔ ∃ user, db.filter (·.sessionId = some id) = [user] :=
  validateSession_single db id rfl rfl

theorem mem_of_accepts {db : List (User Uuid)} {id : Uuid} (h : Accepts F db id) :
    ∃ user ∈ db, user.sessionId = some id := by
  obtain ⟨user, hRows⟩ := (accepts_iff db id).mp h
  have hMem : user ∈ db.filter (·.sessionId = some id) := by rw [hRows]; simp
  exact ⟨user, by simpa using hMem⟩

/-! ## The invariant -/

/-- Every row holds the last session id of its user, all session ids are different, and what
a request is about to save was read from a row. -/
structure Inv (s : State Uuid P) : Prop where
  ids : (s.db.map User.id).Nodup
  current : ∀ user ∈ s.db, user.sessionId = (sessionsOf s.log user.id).getLast?
  known : ∀ entry ∈ s.log, entry.1 ∈ s.db.map User.id
  fresh : (s.log.map Prod.snd).Nodup
  used : ∀ entry ∈ s.log, entry.2 ∈ s.used
  login : ∀ p user id, s.pc p = .saveSession user id →
    user.id ∈ s.db.map User.id ∧ user.sessionId = some id ∧ id ∈ s.used ∧
      id ∉ s.log.map Prod.snd
  distinct : ∀ p q user user' id, s.pc p = .saveSession user id →
    s.pc q = .saveSession user' id → p = q
  info : ∀ p user, s.pc p = .saveInfo user →
    user.id ∈ s.db.map User.id ∧ ∀ id ∈ user.sessionId, (user.id, id) ∈ s.log

namespace Inv

theorem mem_log (h : Inv s) {user : User Uuid} (hUser : user ∈ s.db) {id : Uuid}
    (hId : user.sessionId = some id) : (user.id, id) ∈ s.log := by
  rw [h.current user hUser] at hId
  exact mem_sessionsOf.mp (List.mem_of_getLast? hId)

/-- A session id belongs to one user. -/
theorem user_unique (h : Inv s) {u v id : Uuid} (hu : (u, id) ∈ s.log) (hv : (v, id) ∈ s.log) :
    u = v :=
  congrArg Prod.fst (List.inj_on_of_nodup_map h.fresh hu hv rfl)

theorem row_unique (h : Inv s) {u v : User Uuid} (hu : u ∈ s.db) (hv : v ∈ s.db)
    (hId : u.id = v.id) : u = v :=
  List.inj_on_of_nodup_map h.ids hu hv hId

theorem accepts (h : Inv s) {user : User Uuid} (hUser : user ∈ s.db) {id : Uuid}
    (hId : user.sessionId = some id) : Accepts F s.db id := by
  rw [accepts_iff]
  have hAll : ∀ v ∈ s.db.filter (·.sessionId = some id), v = user := by
    intro v hv
    simp only [List.mem_filter, decide_eq_true_eq] at hv
    exact h.row_unique hv.1 hUser (h.user_unique (h.mem_log hv.1 hv.2) (h.mem_log hUser hId))
  have hNodup : (s.db.filter (·.sessionId = some id)).Nodup := h.ids.of_map.filter _
  have hMem : user ∈ s.db.filter (·.sessionId = some id) := by simp [hUser, hId]
  refine ⟨user, ?_⟩
  rcases hRows : s.db.filter (·.sessionId = some id) with _ | ⟨x, _ | ⟨y, rest⟩⟩
  · rw [hRows] at hMem
    cases hMem
  · rw [hRows, hAll x (by rw [hRows]; simp)]
  · have hx := hAll x (by rw [hRows]; simp)
    have hy := hAll y (by rw [hRows]; simp)
    rw [hRows, hx, hy] at hNodup
    simp at hNodup

theorem honoured (h : Inv s) : Honoured F s := by
  intro user earlier last hSessions
  have hLast : (user, last) ∈ s.log := mem_sessionsOf.mp (by rw [hSessions]; simp)
  obtain ⟨row, hRow, hRowId⟩ := List.mem_map.mp (h.known _ hLast)
  dsimp only at hRowId
  have hCurrent := h.current row hRow
  rw [hRowId, hSessions, List.getLast?_append, List.getLast?_singleton, Option.some_or] at hCurrent
  refine ⟨h.accepts hRow hCurrent, ?_⟩
  intro id hId hAccepts
  obtain ⟨row', hRow', hSession⟩ := mem_of_accepts hAccepts
  have hIdLog : (user, id) ∈ s.log := mem_sessionsOf.mp (by rw [hSessions]; simp [hId])
  have hSame := h.user_unique (h.mem_log hRow' hSession) hIdLog
  have hRows := h.row_unique hRow' hRow (hSame.trans hRowId.symm)
  rw [hRows, hCurrent] at hSession
  have hNodup := sessionsOf_nodup h.fresh user
  rw [hSessions, Option.some.inj hSession] at hNodup
  simp only [List.nodup_append, List.mem_singleton, forall_eq] at hNodup
  exact hNodup.2.2 id hId rfl

end Inv

/-- The log that the rows stand for. -/
def logOf (db : List (User Uuid)) : List (Uuid × Uuid) :=
  db.filterMap fun user => user.sessionId.map fun id => (user.id, id)

omit [DecidableEq Uuid] in
theorem mem_logOf {db : List (User Uuid)} {entry : Uuid × Uuid} :
    entry ∈ logOf db ↔ ∃ user ∈ db, user.id = entry.1 ∧ user.sessionId = some entry.2 := by
  simp only [logOf, List.mem_filterMap, Option.map_eq_some_iff, Prod.ext_iff]
  constructor
  · rintro ⟨user, hUser, id, hId, hFst, rfl⟩
    exact ⟨user, hUser, hFst, hId⟩
  · rintro ⟨user, hUser, hFst, hId⟩
    exact ⟨user, hUser, _, hId, hFst, rfl⟩

theorem sessionsOf_logOf {db : List (User Uuid)} (hIds : (db.map User.id).Nodup)
    {user : User Uuid} (hUser : user ∈ db) :
    (sessionsOf (logOf db) user.id).getLast? = user.sessionId := by
  have hMem : ∀ id, id ∈ sessionsOf (logOf db) user.id ↔ user.sessionId = some id := by
    intro id
    rw [mem_sessionsOf, mem_logOf]
    constructor
    · rintro ⟨v, hv, hId, hSession⟩
      rwa [← List.inj_on_of_nodup_map hIds hv hUser hId]
    · intro hSession
      exact ⟨user, hUser, rfl, hSession⟩
  cases hLast : (sessionsOf (logOf db) user.id).getLast? with
  | none =>
    rw [List.getLast?_eq_none_iff] at hLast
    rw [hLast] at hMem
    symm
    rw [Option.eq_none_iff_forall_ne_some]
    intro id hId
    simpa using (hMem id).mpr hId
  | some id => exact ((hMem id).mp (List.mem_of_getLast? hLast)).symm

theorem inv_of_initial (h : Initial s) : Inv s where
  ids := h.ids
  current user hUser := by
    rw [h.log]
    exact (sessionsOf_logOf h.ids hUser).symm
  known entry hEntry := by
    rw [h.log] at hEntry
    obtain ⟨user, hUser, hId, -⟩ := mem_logOf.mp hEntry
    exact List.mem_map.mpr ⟨user, hUser, hId⟩
  fresh := by
    have hIds : (logOf s.db).map Prod.snd = s.db.filterMap User.sessionId := by
      simp [logOf, List.map_filterMap, Function.comp_def]
    rw [h.log, ← logOf, hIds]
    exact h.sessions
  used entry hEntry := by
    rw [h.log] at hEntry
    obtain ⟨user, hUser, -, hSession⟩ := mem_logOf.mp hEntry
    exact h.used _ (List.mem_filterMap.mpr ⟨user, hUser, hSession⟩)
  login p user id hpc := by
    rw [h.pc] at hpc
    cases hpc
  distinct p q user user' id hpc := by
    rw [h.pc] at hpc
    cases hpc
  info p user hpc := by
    rw [h.pc] at hpc
    cases hpc

/-! ## Steps -/

variable [DecidableEq P]

/-- What a step can do. -/
inductive Effect (s : State Uuid P) (a : Action Uuid P) : State Uuid P → Prop
  | respond (response : Response Uuid) : Effect s a (s.goto a.process (.done response))
  | readLogin {row : User Uuid} (mem : row ∈ s.db) (fresh : a.uuid ∉ s.used) :
      Effect s a { s.goto a.process (.saveSession { row with sessionId := some a.uuid } a.uuid)
        with used := a.uuid :: s.used }
  | readInfo {row user : User Uuid} (mem : row ∈ s.db) (id : user.id = row.id)
      (session : user.sessionId = row.sessionId) : Effect s a (s.goto a.process (.saveInfo user))
  | saveLogin {user : User Uuid} {id : Uuid} (pc : s.pc a.process = .saveSession user id) :
      Effect s a { s.goto a.process (.done (.session (some id))) with
        db := UserRepository.save s.db user
        log := s.log ++ [(user.id, id)] }
  | saveInfo {user : User Uuid} (pc : s.pc a.process = .saveInfo user) :
      Effect s a { s.goto a.process (.done .redirect) with db := UserRepository.save s.db user }

omit [DecidableEq Uuid] in
theorem mem_of_findByEmail {db : List (User Uuid)} {email : Option Spring.JavaString}
    {user : User Uuid} (h : UserRepository.findByEmail db email = .ok (some user)) :
    user ∈ db := by
  unfold UserRepository.findByEmail at h
  rcases hRows : db.filter (·.email = email) with _ | ⟨x, _ | ⟨y, rest⟩⟩ <;>
    rw [hRows] at h <;> cases h
  have hMem : user ∈ db.filter (·.email = email) := by rw [hRows]; simp
  exact (List.mem_filter.mp hMem).1

/-- **Inversion.** -/
theorem step_cases (h : Step F requests s a t) : Effect s a t := by
  unfold Step step at h
  cases hpc : s.pc a.process with
  | start =>
    rw [hpc] at h
    cases hRequest : requests a.process with
    | authenticate email password =>
      rw [hRequest] at h
      dsimp only at h
      unfold startAuthenticate at h
      split at h
      · cases h
        exact .respond _
      · cases h
        exact .respond _
      · rename_i row hRow
        split at h
        · cases h
          exact .respond _
        · split_ifs at h with hPassword hUsed
          · cases h
            exact .readLogin (mem_of_findByEmail hRow) hUsed
          · cases h
            exact .respond _
    | newPersonalInfoPost userId gpa city state =>
      rw [hRequest] at h
      cases h
      unfold startPersonalInfo
      split
      · exact .respond _
      · split
        · exact .respond _
        · rename_i row hRow
          exact .readInfo (List.mem_of_find?_eq_some hRow) rfl rfl
  | saveSession user id =>
    rw [hpc] at h
    cases h
    exact .saveLogin hpc
  | saveInfo user =>
    rw [hpc] at h
    cases h
    exact .saveInfo hpc
  | done response =>
    rw [hpc] at h
    cases h

omit [DecidableEq Uuid] in
theorem pc_of_goto {p q : P} {pc pc' : Pc Uuid} (h : (s.goto p pc).pc q = pc') (hNe : pc ≠ pc') :
    q ≠ p ∧ s.pc q = pc' := by
  have hqp : q ≠ p := by
    rintro rfl
    exact hNe (by simpa [State.goto] using h)
  exact ⟨hqp, by simpa [State.goto, hqp] using h⟩

omit [DecidableEq Uuid] in
theorem pc_of_goto_self {p q : P} {user user' : User Uuid} {id id' : Uuid}
    (h : (s.goto p (.saveSession user id)).pc q = .saveSession user' id') :
    (q = p ∧ user' = user ∧ id' = id) ∨ s.pc q = .saveSession user' id' := by
  by_cases hq : q = p
  · subst hq
    simp only [State.goto, Function.update_self, Pc.saveSession.injEq] at h
    exact Or.inl ⟨rfl, h.1.symm, h.2.symm⟩
  · exact Or.inr (by simpa [State.goto, hq] using h)

namespace Inv

/-- A process that is not about to save a session keeps the invariant where what it is about
to save as profile data was read. -/
theorem goto (h : Inv s) {p : P} {pc : Pc Uuid} (hLogin : ∀ user id, pc ≠ .saveSession user id)
    (hInfo : ∀ user, pc = .saveInfo user →
      user.id ∈ s.db.map User.id ∧ ∀ id ∈ user.sessionId, (user.id, id) ∈ s.log) :
    Inv (s.goto p pc) where
  ids := h.ids
  current := h.current
  known := h.known
  fresh := h.fresh
  used := h.used
  login q user id hpc := h.login q user id (pc_of_goto hpc (hLogin user id)).2
  distinct q q' user user' id hpc hpc' :=
    h.distinct q q' user user' id (pc_of_goto hpc (hLogin user id)).2
      (pc_of_goto hpc' (hLogin user' id)).2
  info q user hpc := by
    by_cases hEq : pc = .saveInfo user
    · exact hInfo user hEq
    · exact h.info q user (pc_of_goto hpc hEq).2

theorem readLogin (h : Inv s) {row : User Uuid} (hRow : row ∈ s.db) (hFresh : a.uuid ∉ s.used) :
    Inv { s.goto a.process (.saveSession { row with sessionId := some a.uuid } a.uuid)
      with used := a.uuid :: s.used } where
  ids := h.ids
  current := h.current
  known := h.known
  fresh := h.fresh
  used entry hEntry := List.mem_cons_of_mem _ (h.used entry hEntry)
  login q user id hpc := by
    rcases pc_of_goto_self hpc with ⟨-, rfl, rfl⟩ | hOld
    · refine ⟨List.mem_map.mpr ⟨row, hRow, rfl⟩, rfl, List.mem_cons_self, ?_⟩
      intro hMem
      obtain ⟨entry, hEntry, hId⟩ := List.mem_map.mp hMem
      exact hFresh (hId ▸ h.used entry hEntry)
    · obtain ⟨hMem, hSession, hUsed, hNew⟩ := h.login q user id hOld
      exact ⟨hMem, hSession, List.mem_cons_of_mem _ hUsed, hNew⟩
  distinct q q' user user' id hpc hpc' := by
    rcases pc_of_goto_self hpc with ⟨rfl, -, rfl⟩ | hOld
    · rcases pc_of_goto_self hpc' with ⟨rfl, -, -⟩ | hOld'
      · rfl
      · exact absurd (h.login _ _ _ hOld').2.2.1 hFresh
    · rcases pc_of_goto_self hpc' with ⟨-, -, rfl⟩ | hOld'
      · exact absurd (h.login _ _ _ hOld).2.2.1 hFresh
      · exact h.distinct q q' user user' id hOld hOld'
  info q user hpc := h.info q user (pc_of_goto hpc (by simp)).2

/-- The new session id is the last one of its user. -/
theorem saveLogin (h : Inv s) {user : User Uuid} {id : Uuid}
    (hpc : s.pc a.process = .saveSession user id) :
    Inv { s.goto a.process (.done (.session (some id))) with
      db := UserRepository.save s.db user
      log := s.log ++ [(user.id, id)] } := by
  obtain ⟨hMem, hSession, hUsed, hNew⟩ := h.login _ _ _ hpc
  have hIds : (UserRepository.save s.db user).map User.id = s.db.map User.id :=
    map_key_overwrite User.id user s.db
  have hOld : ∀ {q pc}, pc ≠ .done (.session (some id)) →
      (s.goto a.process (.done (.session (some id)))).pc q = pc →
      q ≠ a.process ∧ s.pc q = pc := fun hNe hq => pc_of_goto hq (Ne.symm hNe)
  constructor
  · exact hIds ▸ h.ids
  · intro row hRow
    dsimp only
    rw [sessionsOf_append]
    rcases eq_or_key_ne_of_mem_overwrite hRow with rfl | ⟨hRow, hKey⟩
    · rw [if_pos rfl, List.getLast?_append, List.getLast?_singleton, Option.some_or, hSession]
    · rw [if_neg (Ne.symm hKey), h.current row hRow]
  · intro entry hEntry
    rw [hIds]
    rcases List.mem_append.mp hEntry with hEntry | hEntry
    · exact h.known entry hEntry
    · rw [List.mem_singleton.mp hEntry]
      exact hMem
  · simp only [List.map_append, List.map_cons, List.map_nil]
    exact List.nodup_append.mpr ⟨h.fresh, List.nodup_singleton id, by
      intro x hx y hy hxy
      rw [hxy, List.mem_singleton.mp hy] at hx
      exact hNew hx⟩
  · intro entry hEntry
    rcases List.mem_append.mp hEntry with hEntry | hEntry
    · exact h.used entry hEntry
    · rw [List.mem_singleton.mp hEntry]
      exact hUsed
  · intro q user' id' hq
    obtain ⟨hNe, hBefore⟩ := hOld (by simp) hq
    obtain ⟨hMem', hSession', hUsed', hNew'⟩ := h.login _ _ _ hBefore
    refine ⟨hIds ▸ hMem', hSession', hUsed', ?_⟩
    simp only [List.map_append, List.map_cons, List.map_nil, List.mem_append, List.mem_singleton,
      not_or]
    refine ⟨hNew', ?_⟩
    rintro rfl
    exact hNe (h.distinct _ _ _ _ _ hBefore hpc)
  · intro q q' user' user'' id' hq hq'
    exact h.distinct _ _ _ _ _ (hOld (by simp) hq).2 (hOld (by simp) hq').2
  · intro q user' hq
    obtain ⟨hMem', hKnown⟩ := h.info _ _ (hOld (by simp) hq).2
    exact ⟨hIds ▸ hMem', fun id hId => List.mem_append_left _ (hKnown id hId)⟩

theorem saveInfo (h : Inv s) {user : User Uuid} (hpc : s.pc a.process = .saveInfo user)
    (hCurrent : SavesCurrent s a) :
    Inv { s.goto a.process (.done .redirect) with db := UserRepository.save s.db user } := by
  obtain ⟨row, hRow, hRowId⟩ := List.mem_map.mp (h.info _ _ hpc).1
  have hSession := hCurrent user hpc row hRow hRowId
  have hIds : (UserRepository.save s.db user).map User.id = s.db.map User.id :=
    map_key_overwrite User.id user s.db
  have hGoto : Inv (s.goto a.process (.done .redirect)) := h.goto (by simp) (by simp)
  exact
    { hGoto with
      ids := hIds ▸ h.ids
      current := by
        intro row' hRow'
        rcases mem_of_mem_overwrite hRow' with rfl | hRow'
        · rw [← hSession, h.current row hRow, hRowId]
          rfl
        · exact h.current row' hRow'
      known := fun entry hEntry => hIds ▸ h.known entry hEntry
      login := fun q user' id hq => hIds ▸ hGoto.login q user' id hq
      info := fun q user' hq => hIds ▸ hGoto.info q user' hq }

theorem step (h : Inv s) (hStep : Step F requests s a t) (hCurrent : SavesCurrent s a) :
    Inv t := by
  cases step_cases hStep with
  | respond response => exact h.goto (by simp) (by simp)
  | readLogin hRow hFresh => exact h.readLogin hRow hFresh
  | @readInfo row user hRow hId hSession =>
    refine h.goto (by simp) ?_
    intro user' hEq
    cases hEq
    refine ⟨List.mem_map.mpr ⟨row, hRow, hId.symm⟩, fun id hSome => ?_⟩
    rw [hId]
    exact h.mem_log hRow (hSession ▸ hSome)
  | saveLogin hpc => exact h.saveLogin hpc
  | saveInfo hpc => exact h.saveInfo hpc hCurrent

/-- An edit that puts an old session id back takes a session away at once. -/
theorem savesCurrent_of_honoured (h : Inv s) (hStep : Step F requests s a t)
    (hHonoured : Honoured F t) : SavesCurrent s a := by
  intro user hpc row hRow hRowId
  by_contra hNe
  have hKnown := (h.info _ _ hpc).2
  have hRowCurrent := h.current row hRow
  unfold Step TechEntrance.step at hStep
  rw [hpc] at hStep
  cases hStep
  cases hLast : row.sessionId with
  | none =>
    rw [hLast] at hRowCurrent hNe
    have hNil := List.getLast?_eq_none_iff.mp hRowCurrent.symm
    obtain ⟨id, hId⟩ := Option.ne_none_iff_exists'.mp (Ne.symm hNe)
    have hMem := mem_sessionsOf.mpr (hKnown id hId)
    rw [← hRowId, hNil] at hMem
    cases hMem
  | some last =>
    rw [hLast] at hRowCurrent
    obtain ⟨earlier, hSessions⟩ := List.getLast?_eq_some_iff.mp hRowCurrent.symm
    obtain ⟨row', hRow', hSession⟩ := mem_of_accepts (hHonoured row.id earlier last hSessions).1
    rcases eq_or_key_ne_of_mem_overwrite hRow' with rfl | ⟨hRow', hKey⟩
    · exact hNe (hLast.trans hSession.symm)
    · have hSame := h.user_unique (h.mem_log hRow' hSession) (h.mem_log hRow hLast)
      exact hKey (hSame.trans hRowId)

end Inv

/-- **Sessions.** In every run whose profile edits save the session id that is current, the
sessions are honoured in every state; and a run with another edit passes a state in which
they are not. -/
theorem honoured_iff (F : UuidFormat Uuid) (requests : P → Request) (h : Initial s) :
    (∀ tr t, Run (Guarded (Step F requests) SavesCurrent) s tr t → Honoured F t) ∧
      ∀ tr t, Run (Keeping (Step F requests) (Honoured F)) s tr t ↔
        Run (Guarded (Step F requests) SavesCurrent) s tr t := by
  constructor
  · intro tr t hRun
    have hInv : Inv t := hRun.invariant (inv_of_initial h) fun _ _ _ hInv hStep =>
      hInv.step hStep.1 hStep.2
    exact hInv.honoured
  · intro tr t
    exact Run.keeping_iff_guarded (inv_of_initial h) (fun _ _ _ hInv => hInv.step)
      (fun _ hInv => hInv.honoured) (fun _ _ _ hInv => hInv.savesCurrent_of_honoured)

/-! ## A login that is lost -/

open Spring (JavaString javaString)

/-- UUIDs as their texts. -/
def textFormat : UuidFormat JavaString where
  toString := id
  fromString := some
  fromString_toString _ := rfl

def aliceId : JavaString := javaString "7d444840-9dc0-11d1-b245-5ffdce74fad2"

def loginId : JavaString := javaString "e902893a-9d22-3c7e-a7b8-d6e313b71d9f"

def alice : User JavaString :=
  { id := aliceId, firstName := none, lastName := none, phoneNumber := none, gpa := none,
    city := none, state := none, email := javaString "alice@example.com",
    password := javaString "secret", sessionId := none }

/-- An edit of the profile and a login of the same user. -/
def editAndLogin : Bool → Request
  | false => .newPersonalInfoPost aliceId (javaString "3.5") (javaString "Troy") (javaString "NY")
  | true => .authenticate (javaString "alice@example.com") (javaString "secret")

def oneUser : State JavaString Bool where
  db := [alice]
  pc _ := .start
  used := []
  log := []

theorem initial_oneUser : Initial oneUser where
  ids := List.nodup_singleton _
  sessions := List.nodup_nil
  used _ h := by cases h
  log := rfl
  pc _ := rfl

/-- The login is honoured when the edit comes after it. -/
theorem honoured_iff_oneUser : ∃ t : State JavaString Bool, Honoured textFormat t ∧
    t.log = [(aliceId, loginId)] ∧ t.db.map User.gpa = [javaString "3.5"] := by
  obtain ⟨t, hRun, hLog, hDb⟩ : ∃ t,
      Run (Guarded (Step textFormat editAndLogin) SavesCurrent) oneUser
        [⟨true, loginId⟩, ⟨true, loginId⟩, ⟨false, loginId⟩, ⟨false, loginId⟩] t ∧
      t.log = [(aliceId, loginId)] ∧ t.db.map User.gpa = [javaString "3.5"] :=
    ⟨_, Run.guarded_of_foldlM rfl, rfl, rfl⟩
  exact ⟨t, (honoured_iff textFormat editAndLogin initial_oneUser).1 _ t hRun, hLog, hDb⟩

theorem not_forall_honoured :
    ¬ ∀ (Uuid P : Type) [DecidableEq Uuid] [DecidableEq P] (F : UuidFormat Uuid)
      (requests : P → Request) (s t : State Uuid P), Initial s →
      Reachable (Step F requests) s t → Honoured F t := by
  intro hAll
  -- the edit reads the row before the login and saves it after the login
  obtain ⟨t, hRun, hLog, hDb⟩ : ∃ t, Run (Step textFormat editAndLogin) oneUser
      [⟨false, loginId⟩, ⟨true, loginId⟩, ⟨true, loginId⟩, ⟨false, loginId⟩] t ∧
      sessionsOf t.log aliceId = [loginId] ∧ t.db.filterMap User.sessionId = [] :=
    ⟨_, Run.of_foldlM rfl, rfl, rfl⟩
  have hHonoured := hAll JavaString Bool textFormat editAndLogin oneUser t initial_oneUser
    ⟨_, hRun⟩
  obtain ⟨user, hUser, hSession⟩ := mem_of_accepts (hHonoured aliceId [] loginId hLog).1
  have hMem : loginId ∈ t.db.filterMap User.sessionId :=
    List.mem_filterMap.mpr ⟨user, hUser, hSession⟩
  rw [hDb] at hMem
  cases hMem

end Windborne.TechEntrance
