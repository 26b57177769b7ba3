import Windborne.TechEntrance.AccessControl

/-!
# The session of a request

`validateSession` should find the first cookie with a session of some user, whatever else the
client sends. It does so unless it meets, before that cookie, a `SessionId` that is no UUID, or
finds the session of several users.
-/

namespace Windborne.TechEntrance

open Library
open Spring (JavaString javaString)

variable {Uuid : Type} [DecidableEq Uuid] {F : UuidFormat Uuid} {db : List (User Uuid)}
  {request : List Cookie} {cookie : Cookie}

/-- A `SessionId` with the text of the current session id of some user. -/
def HasSession (F : UuidFormat Uuid) (db : List (User Uuid)) (cookie : Cookie) : Prop :=
  cookie.name = javaString "SessionId" ∧
    ∃ id ∈ F.fromString cookie.value, id ∈ db.filterMap User.sessionId

instance (F : UuidFormat Uuid) (db : List (User Uuid)) (cookie : Cookie) :
    Decidable (HasSession F db cookie) := inferInstanceAs (Decidable (_ ∧ _))

/-- The cookie as `validateSession` returns it. -/
def touched (cookie : Cookie) : Cookie := { cookie with maxAge := 10 }

/-- **Session validity.** No exception, and the first cookie that has a session, if there is one. -/
def Decided (F : UuidFormat Uuid) (db : List (User Uuid)) (request : List Cookie)
    (result : Except Failure (Option Cookie)) : Prop :=
  ∃ answer, result = .ok answer ∧
    (answer ≠ none ↔ ∃ cookie ∈ request, HasSession F db cookie) ∧
    answer = (request.find? (HasSession F db ·)).map touched

/-- The first cookie that decides has the session of exactly one user. -/
def WellDecided (F : UuidFormat Uuid) (db : List (User Uuid)) (request : List Cookie) : Prop :=
  ∀ cookie ∈ deciding F db request, ∃ id, F.fromString cookie.value = some id ∧
    ∃ user, db.filter (·.sessionId = some id) = [user]

/-! ## The loop -/

omit [DecidableEq Uuid] in
theorem HasSession.decides (h : HasSession F db cookie) : Decides F db cookie := by
  obtain ⟨hName, id, hId, hMem⟩ := h
  refine ⟨hName, ?_⟩
  intro id' hId'
  rw [Option.mem_unique hId' hId]
  exact hMem

/-- What the loop does is up to the cookie that decides. -/
theorem validateSession_eq (F : UuidFormat Uuid) (db : List (User Uuid)) (request : List Cookie) :
    validateSession F db request =
      match deciding F db request with
      | none => .ok none
      | some cookie =>
        match F.fromString cookie.value with
        | none => .error .illegalArgument
        | some id =>
          (UserRepository.findBySessionId db id).map fun _ => some (touched cookie) := by
  induction request with
  | nil => rfl
  | cons cookie request ih =>
    by_cases hName : cookie.name = javaString "SessionId"
    · rw [validateSession, if_pos hName]
      cases hId : F.fromString cookie.value with
      | none =>
        have hDecides : Decides F db cookie := ⟨hName, by simp [hId]⟩
        rw [deciding_cons_of hDecides]
        simp only [hId]
      | some id =>
        have hDecides : Decides F db cookie ↔ db.filter (·.sessionId = some id) ≠ [] := by
          rw [Decides, hId, ← mem_sessions_iff]
          simp [hName]
        cases hRows : db.filter (·.sessionId = some id) with
        | nil =>
          rw [hRows] at hDecides
          rw [deciding_cons_of_not (fun h => hDecides.mp h rfl), ← ih]
          simp only [UserRepository.findBySessionId, hRows, single]
        | cons user rest =>
          rw [hRows] at hDecides
          rw [deciding_cons_of (hDecides.mpr (List.cons_ne_nil _ _))]
          simp only [hId, UserRepository.findBySessionId, hRows]
          cases rest <;> rfl
    · rw [validateSession, if_neg hName, deciding_cons_of_not fun h => hName h.1]
      exact ih

theorem find?_hasSession (hFound : deciding F db request = some cookie)
    (hSession : HasSession F db cookie) :
    request.find? (HasSession F db ·) = some cookie := by
  obtain ⟨-, before, after, rfl, hBefore⟩ := List.find?_eq_some_iff_append.mp hFound
  refine List.find?_eq_some_iff_append.mpr ⟨decide_eq_true hSession, before, after, rfl, ?_⟩
  intro other hMem
  have hNot : ¬Decides F db other := by simpa using hBefore other hMem
  simpa using fun h : HasSession F db other => hNot h.decides

theorem not_hasSession_of_deciding_none (hFound : deciding F db request = none) :
    ∀ cookie ∈ request, ¬HasSession F db cookie := by
  intro cookie hMem hSession
  have hNot := List.find?_eq_none.mp hFound cookie hMem
  exact hNot (decide_eq_true hSession.decides)

/-- **Session validity.** `validateSession` decides exactly the requests in which the first
`SessionId` that is no UUID or has a session has that of one user. -/
theorem validateSession_decided_iff (F : UuidFormat Uuid) (db : List (User Uuid))
    (request : List Cookie) :
    Decided F db request (validateSession F db request) ↔ WellDecided F db request := by
  rw [validateSession_eq]
  cases hFound : deciding F db request with
  | none =>
    have hNone := not_hasSession_of_deciding_none hFound
    have hSearch : request.find? (HasSession F db ·) = none := by
      rw [List.find?_eq_none]
      intro cookie hMem
      simpa using hNone cookie hMem
    refine iff_of_true ⟨none, rfl, iff_of_false (fun h => h rfl) ?_, ?_⟩ ?_
    · rintro ⟨cookie, hMem, hSession⟩
      exact hNone cookie hMem hSession
    · rw [hSearch]
      rfl
    · intro cookie hCookie
      rw [hFound] at hCookie
      cases hCookie
  | some cookie =>
    have hWell : WellDecided F db request ↔ ∃ id, F.fromString cookie.value = some id ∧
        ∃ user, db.filter (·.sessionId = some id) = [user] := by
      simp [WellDecided, hFound]
    rw [hWell]
    dsimp only
    obtain ⟨hMem, hName⟩ := mem_of_deciding hFound
    cases hId : F.fromString cookie.value with
    | none => exact iff_of_false (by rintro ⟨_, ⟨⟩, -⟩) (by simp)
    | some id =>
      have hDecides : Decides F db cookie := by simpa using List.find?_some hFound
      have hIn : id ∈ db.filterMap User.sessionId := hDecides.2 id hId
      have hSession : HasSession F db cookie := ⟨hName, id, hId, hIn⟩
      dsimp only [UserRepository.findBySessionId]
      cases hRows : db.filter (·.sessionId = some id) with
      | nil => exact absurd hRows (mem_sessions_iff.mp hIn)
      | cons user rest =>
        cases rest with
        | nil =>
          refine iff_of_true ⟨some (touched cookie), rfl, ?_, ?_⟩ ⟨id, rfl, user, hRows⟩
          · exact iff_of_true (Option.some_ne_none _) ⟨cookie, hMem, hSession⟩
          · rw [find?_hasSession hFound hSession]
            rfl
        | cons other rest =>
          refine iff_of_false (by rintro ⟨_, ⟨⟩, -⟩) ?_
          rintro ⟨id', ⟨⟩, owner, hOne⟩
          rw [hRows] at hOne
          cases hOne

/-! ## A malformed cookie -/

/-- The texts with the length of a UUID. -/
abbrev UuidText := { text : JavaString // text.length = 36 }

def strictFormat : UuidFormat UuidText where
  toString := Subtype.val
  fromString text := if h : text.length = 36 then some ⟨text, h⟩ else none
  fromString_toString id := dif_pos id.2

/-- Mallory with the session of her login. -/
def loggedIn : List (User UuidText) :=
  [{ id := ⟨malloryId, by decide⟩, firstName := none, lastName := none, phoneNumber := none,
     gpa := none, city := none, state := none, email := javaString "mallory@example.com",
     password := none, sessionId := some ⟨loginId, by decide⟩ }]

/-- A malformed `SessionId` before the one of the login. -/
def malformedFirst : List Cookie :=
  [⟨javaString "SessionId", javaString "x", 3600⟩, ⟨javaString "SessionId", loginId, 3600⟩]

/-- The malformed cookie ends the request with an exception. -/
theorem malformedFirst_not_decided : ¬Decided strictFormat loggedIn malformedFirst
    (validateSession strictFormat loggedIn malformedFirst) := by
  rintro ⟨answer, hOk, -⟩
  have hError : validateSession strictFormat loggedIn malformedFirst =
      .error .illegalArgument := rfl
  rw [hError] at hOk
  cases hOk

end Windborne.TechEntrance
