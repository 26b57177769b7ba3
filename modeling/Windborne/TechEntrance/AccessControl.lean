import Windborne.Library.Results
import Windborne.TechEntrance.SessionSafety

/-!
# Access control of the user pages

`userSkills` lets every request through that carries the session of some user, and
`newPersonalInfoPost` does not look at the session. Which requests are nevertheless served only to
the user of the page.
-/

namespace Windborne.TechEntrance

open Library
open Spring (JavaString javaString)

variable {Uuid : Type} [DecidableEq Uuid]

/-! ## `UserController` -/

/-- The views; the last one redirects to the skills page of the submitted user, who has no id. -/
inductive View where
  | error
  | redirectLogin
  | addskills
  | redirectUsersNullSkills
  deriving DecidableEq

/-- A view and the cookies that the response sets. -/
structure Page where
  view : View
  cookies : List Cookie
  deriving DecidableEq

/-- The submitted fields that `newPersonalInfoPost` reads. -/
structure PersonalInfo where
  gpa : Option JavaString
  city : Option JavaString
  state : Option JavaString

/-- The way to the login, with a cookie for the way back. -/
def loginPage (userId : JavaString) : Page where
  view := .redirectLogin
  cookies := [⟨javaString "redirectURL", javaString "users/" ++ userId ++ javaString "/skills", -1⟩]

/-- `GET /users/{userid}/skills`. A request without cookies has none in the list. -/
def userSkills (F : UuidFormat Uuid) (db : List (User Uuid)) (request : List Cookie)
    (userId : JavaString) : Except Failure Page := do
  let some uuidUserId := F.fromString userId | throw .illegalArgument
  let some _ := UserRepository.findById db uuidUserId | return ⟨.error, []⟩
  match ← validateSession F db request with
  | none => return loginPage userId
  | some cookie => return ⟨.addskills, [cookie]⟩

/-- `POST /users/{userid}/personalInfo` -/
def newPersonalInfoPost (F : UuidFormat Uuid) (db : List (User Uuid)) (userId : JavaString)
    (user : PersonalInfo) : Except Failure (Page × List (User Uuid)) := do
  let some uuidUserId := F.fromString userId | throw .illegalArgument
  let some foundUser := UserRepository.findById db uuidUserId | return (⟨.error, []⟩, db)
  let foundUser := { foundUser with gpa := user.gpa, city := user.city, state := user.state }
  return (⟨.redirectUsersNullSkills, []⟩, UserRepository.save db foundUser)

/-! ## Requests -/

inductive PageRequest where
  | userSkills (request : List Cookie) (userId : JavaString)
  | newPersonalInfoPost (request : List Cookie) (userId : JavaString) (user : PersonalInfo)

/-- The users; the id is the primary key. -/
abbrev Users (Uuid : Type) := { db : List (User Uuid) // (db.map User.id).Nodup }

namespace PageRequest

def userId : PageRequest → JavaString
  | userSkills _ userId | newPersonalInfoPost _ userId _ => userId

def cookies : PageRequest → List Cookie
  | userSkills request _ | newPersonalInfoPost request _ _ => request

/-- The users after the request. -/
def after (F : UuidFormat Uuid) (db : Users Uuid) : PageRequest → List (User Uuid)
  | userSkills _ _ => db.1
  | newPersonalInfoPost _ userId user =>
    match TechEntrance.newPersonalInfoPost F db.1 userId user with
    | .error _ => db.1
    | .ok (_, db') => db'

end PageRequest

/-- A `SessionId` cookie of the request has the session id of the user. -/
def Carries (F : UuidFormat Uuid) (request : List Cookie) (user : User Uuid) : Prop :=
  ∃ cookie ∈ request, cookie.name = javaString "SessionId" ∧
    ∃ id, F.fromString cookie.value = some id ∧ user.sessionId = some id

/-- The user of the page has sent the request. -/
def Owned (F : UuidFormat Uuid) (db : Users Uuid) (r : PageRequest) : Prop :=
  ∃ user ∈ db.1, F.fromString r.userId = some user.id ∧ Carries F r.cookies user

/-- **Access control.** The page is shown to its user only, and the row of that user is changed for
him only. -/
def Protected (F : UuidFormat Uuid) (db : Users Uuid) (r : PageRequest) : Prop :=
  match r with
  | .userSkills request userId =>
    (∃ cookies, userSkills F db.1 request userId = .ok ⟨.addskills, cookies⟩) → Owned F db r
  | .newPersonalInfoPost _ userId _ =>
    (∃ id, F.fromString userId = some id ∧
      UserRepository.findById (r.after F db) id ≠ UserRepository.findById db.1 id) → Owned F db r

/-- The cookie names the session of some user, or no session at all. -/
def Decides (F : UuidFormat Uuid) (db : List (User Uuid)) (cookie : Cookie) : Prop :=
  cookie.name = javaString "SessionId" ∧
    ∀ id ∈ F.fromString cookie.value, id ∈ db.filterMap User.sessionId

instance (F : UuidFormat Uuid) (db : List (User Uuid)) (cookie : Cookie) :
    Decidable (Decides F db cookie) := inferInstanceAs (Decidable (_ ∧ _))

/-- The first cookie that decides. -/
def deciding (F : UuidFormat Uuid) (db : List (User Uuid)) (request : List Cookie) :
    Option Cookie := request.find? (Decides F db ·)

/-- The cookie that decides has the session of another user only. -/
def Foreign (F : UuidFormat Uuid) (db : List (User Uuid)) (request : List Cookie)
    (user : User Uuid) : Prop :=
  ∃ cookie ∈ deciding F db request, ∃ id, F.fromString cookie.value = some id ∧
    ∃ other, other.id ≠ user.id ∧ db.filter (·.sessionId = some id) = [other]

/-- The requests that are protected: from the user of the page, or without the session of another
user, or with nothing new to save. -/
def Harmless (F : UuidFormat Uuid) (db : Users Uuid) : PageRequest → Prop
  | .userSkills request userId =>
    ∀ user ∈ db.1, F.fromString userId = some user.id → Foreign F db.1 request user →
      Carries F request user
  | .newPersonalInfoPost request userId info =>
    ∀ user ∈ db.1, F.fromString userId = some user.id →
      (user.gpa, user.city, user.state) ≠ (info.gpa, info.city, info.state) →
        Carries F request user

/-! ## Accepted requests -/

variable {F : UuidFormat Uuid}

theorem deciding_cons_of {db : List (User Uuid)} {cookie : Cookie} (h : Decides F db cookie)
    (request : List Cookie) : deciding F db (cookie :: request) = some cookie :=
  List.find?_cons_of_pos (decide_eq_true h)

theorem deciding_cons_of_not {db : List (User Uuid)} {cookie : Cookie}
    (h : ¬Decides F db cookie) (request : List Cookie) :
    deciding F db (cookie :: request) = deciding F db request :=
  List.find?_cons_of_neg fun hDecides => h (of_decide_eq_true hDecides)

theorem mem_of_deciding {db : List (User Uuid)} {request : List Cookie} {cookie : Cookie}
    (h : cookie ∈ deciding F db request) :
    cookie ∈ request ∧ cookie.name = javaString "SessionId" := by
  have hFound : request.find? (fun cookie => Decides F db cookie) = some cookie := h
  have hDecides : Decides F db cookie := by simpa using List.find?_some hFound
  exact ⟨List.mem_of_find?_eq_some hFound, hDecides.1⟩

theorem mem_sessions_iff {db : List (User Uuid)} {id : Uuid} :
    id ∈ db.filterMap User.sessionId ↔ db.filter (·.sessionId = some id) ≠ [] := by
  simp [List.filter_eq_nil_iff]

/-- A request is accepted when the cookie that decides has the session of one user. -/
theorem validateSession_accepts_iff (F : UuidFormat Uuid) (db : List (User Uuid))
    (request : List Cookie) :
    (∃ answer, validateSession F db request = .ok (some answer)) ↔
      ∃ cookie ∈ deciding F db request, ∃ id, F.fromString cookie.value = some id ∧
        ∃ user, db.filter (·.sessionId = some id) = [user] := by
  induction request with
  | nil => exact iff_of_false (by simp [validateSession]) (by simp [deciding])
  | cons cookie request ih =>
    by_cases hName : cookie.name = javaString "SessionId"
    · rw [validateSession, if_pos hName]
      cases hId : F.fromString cookie.value with
      | none =>
        have hDecides : Decides F db cookie := ⟨hName, by simp [hId]⟩
        rw [deciding_cons_of hDecides]
        refine iff_of_false (by simp) ?_
        rintro ⟨_, ⟨⟩, id, hSome, -⟩
        rw [hId] at hSome
        cases hSome
      | some id =>
        have hDecides : Decides F db cookie ↔ db.filter (·.sessionId = some id) ≠ [] := by
          rw [Decides, hId, ← mem_sessions_iff]
          simp [hName]
        dsimp only [UserRepository.findBySessionId]
        cases hRows : db.filter (·.sessionId = some id) with
        | nil =>
          rw [hRows] at hDecides
          rw [deciding_cons_of_not (fun h => hDecides.mp h rfl)]
          exact ih
        | cons user rest =>
          rw [hRows] at hDecides
          rw [deciding_cons_of (hDecides.mpr (List.cons_ne_nil _ _))]
          cases rest with
          | nil => exact iff_of_true ⟨_, rfl⟩ ⟨cookie, rfl, id, hId, user, hRows⟩
          | cons other rest =>
            refine iff_of_false (by simp [single]) ?_
            rintro ⟨_, ⟨⟩, id', hSome, owner, hOne⟩
            rw [hId] at hSome
            cases hSome
            rw [hRows] at hOne
            cases hOne
    · rw [validateSession, if_neg hName, deciding_cons_of_not fun h => hName h.1]
      exact ih

/-! ## `GET /users/{userid}/skills` -/

section Pages

variable {db : Users Uuid} {user : User Uuid} {request : List Cookie} {userId : JavaString}

theorem findById_of_mem (hMem : user ∈ db.1) :
    UserRepository.findById db.1 user.id = some user := by
  unfold UserRepository.findById
  cases hFound : db.1.find? (·.id = user.id) with
  | none => exact absurd (decide_eq_true rfl) (List.find?_eq_none.mp hFound user hMem)
  | some other =>
    have hId : other.id = user.id := by simpa using List.find?_some hFound
    rw [List.inj_on_of_nodup_map db.2 (List.mem_of_find?_eq_some hFound) hMem hId]

theorem mem_of_findById {id : Uuid} (h : UserRepository.findById db.1 id = some user) :
    user ∈ db.1 ∧ user.id = id :=
  ⟨List.mem_of_find?_eq_some h, by simpa using List.find?_some h⟩

omit [DecidableEq Uuid] in
theorem eq_of_fromString {other : User Uuid} (hMem : user ∈ db.1) (hOther : other ∈ db.1)
    (hId : F.fromString userId = some user.id) (hOtherId : F.fromString userId = some other.id) :
    other = user := by
  rw [hId] at hOtherId
  exact List.inj_on_of_nodup_map db.2 hOther hMem (Option.some.inj hOtherId).symm

/-- The skills page is shown for a user who exists, to a request that is accepted. -/
theorem userSkills_shows_iff (F : UuidFormat Uuid) (db : Users Uuid) (request : List Cookie)
    (userId : JavaString) :
    (∃ cookies, userSkills F db.1 request userId = .ok ⟨.addskills, cookies⟩) ↔
      (∃ user ∈ db.1, F.fromString userId = some user.id) ∧
        ∃ answer, validateSession F db.1 request = .ok (some answer) := by
  unfold userSkills
  cases hId : F.fromString userId with
  | none =>
    refine iff_of_false nofun ?_
    rintro ⟨⟨user, -, hSome⟩, -⟩
    cases hSome
  | some id =>
    dsimp only
    cases hFound : UserRepository.findById db.1 id with
    | none =>
      refine iff_of_false ?_ ?_
      · rintro ⟨cookies, hPage⟩
        cases hPage
      · rintro ⟨⟨user, hMem, hSome⟩, -⟩
        cases hSome
        rw [findById_of_mem hMem] at hFound
        cases hFound
    | some user =>
      obtain ⟨hMem, rfl⟩ := mem_of_findById hFound
      dsimp only
      cases hValidate : validateSession F db.1 request with
      | error e =>
        rw [error_bind]
        refine iff_of_false nofun ?_
        rintro ⟨-, answer, hAnswer⟩
        cases hAnswer
      | ok answer =>
        rw [ok_bind]
        cases answer with
        | none =>
          refine iff_of_false ?_ ?_
          · rintro ⟨cookies, hPage⟩
            have hView : (loginPage userId).view = .addskills :=
              congrArg Page.view (Except.ok.inj hPage)
            cases hView
          · rintro ⟨-, cookie, hAnswer⟩
            cases hAnswer
        | some cookie => exact iff_of_true ⟨_, rfl⟩ ⟨⟨user, hMem, rfl⟩, cookie, rfl⟩

/-- An accepted request has the session of the user or is a foreign one. -/
theorem carries_or_foreign (hMem : user ∈ db.1)
    (h : ∃ answer, validateSession F db.1 request = .ok (some answer)) :
    Carries F request user ∨ Foreign F db.1 request user := by
  obtain ⟨cookie, hCookie, id, hId, owner, hRows⟩ :=
    (validateSession_accepts_iff F db.1 request).mp h
  by_cases hSame : owner.id = user.id
  · have hOwner : owner ∈ db.1.filter (·.sessionId = some id) := by
      rw [hRows]
      exact List.mem_singleton_self owner
    obtain ⟨hOwnerMem, hSession⟩ := List.mem_filter.mp hOwner
    rw [List.inj_on_of_nodup_map db.2 hOwnerMem hMem hSame] at hSession
    obtain ⟨hRequest, hName⟩ := mem_of_deciding hCookie
    exact Or.inl ⟨cookie, hRequest, hName, id, hId, of_decide_eq_true hSession⟩
  · exact Or.inr ⟨cookie, hCookie, id, hId, owner, hSame, hRows⟩

theorem accepted_of_foreign (h : Foreign F db.1 request user) :
    ∃ answer, validateSession F db.1 request = .ok (some answer) := by
  obtain ⟨cookie, hCookie, id, hId, owner, -, hRows⟩ := h
  exact (validateSession_accepts_iff F db.1 request).mpr ⟨cookie, hCookie, id, hId, owner, hRows⟩

theorem userSkills_protected_iff (F : UuidFormat Uuid) (db : Users Uuid) (request : List Cookie)
    (userId : JavaString) :
    Protected F db (.userSkills request userId) ↔ Harmless F db (.userSkills request userId) := by
  simp only [Protected, Harmless, userSkills_shows_iff]
  constructor
  · intro hProtected user hMem hId hForeign
    obtain ⟨owner, hOwner, hOwnerId, hCarries⟩ :=
      hProtected ⟨⟨user, hMem, hId⟩, accepted_of_foreign hForeign⟩
    rw [eq_of_fromString hMem hOwner hId hOwnerId] at hCarries
    exact hCarries
  · rintro hHarmless ⟨⟨user, hMem, hId⟩, hAccepted⟩
    rcases carries_or_foreign hMem hAccepted with hCarries | hForeign
    · exact ⟨user, hMem, hId, hCarries⟩
    · exact ⟨user, hMem, hId, hHarmless user hMem hId hForeign⟩

/-! ## `POST /users/{userid}/personalInfo` -/

variable {info : PersonalInfo}

/-- The row that the request saves. -/
def edited (user : User Uuid) (info : PersonalInfo) : User Uuid :=
  { user with gpa := info.gpa, city := info.city, state := info.state }

omit [DecidableEq Uuid] in
theorem edited_eq_iff : edited user info = user ↔
    (user.gpa, user.city, user.state) = (info.gpa, info.city, info.state) := by
  cases user
  simp only [edited, User.mk.injEq, Prod.mk.injEq, true_and, and_true]
  rw [eq_comm (a := info.gpa), eq_comm (a := info.city), eq_comm (a := info.state)]

theorem after_post (request : List Cookie) (info : PersonalInfo) (hMem : user ∈ db.1)
    (hId : F.fromString userId = some user.id) :
    (PageRequest.newPersonalInfoPost request userId info).after F db =
      overwrite User.id (edited user info) db.1 := by
  simp only [PageRequest.after, newPersonalInfoPost, hId, findById_of_mem hMem]
  rfl

theorem after_post_unknown (request : List Cookie) (info : PersonalInfo)
    (h : ¬∃ user ∈ db.1, F.fromString userId = some user.id) :
    (PageRequest.newPersonalInfoPost request userId info).after F db = db.1 := by
  simp only [PageRequest.after, newPersonalInfoPost]
  cases hId : F.fromString userId with
  | none => rfl
  | some id =>
    dsimp only
    cases hFound : UserRepository.findById db.1 id with
    | none => rfl
    | some user =>
      obtain ⟨hMem, rfl⟩ := mem_of_findById hFound
      exact absurd ⟨user, hMem, hId⟩ h

theorem newPersonalInfoPost_protected_iff (F : UuidFormat Uuid) (db : Users Uuid)
    (request : List Cookie) (userId : JavaString) (info : PersonalInfo) :
    Protected F db (.newPersonalInfoPost request userId info) ↔
      Harmless F db (.newPersonalInfoPost request userId info) := by
  simp only [Protected, Harmless]
  by_cases hUser : ∃ user ∈ db.1, F.fromString userId = some user.id
  · obtain ⟨user, hMem, hId⟩ := hUser
    have hSaved : UserRepository.findById (overwrite User.id (edited user info) db.1) user.id =
        some (edited user info) := by
      unfold UserRepository.findById
      exact find?_overwrite_self (r := edited user info) (List.mem_map.mpr ⟨user, hMem, rfl⟩)
    have hOwned : Owned F db (.newPersonalInfoPost request userId info) ↔
        Carries F request user := by
      constructor
      · rintro ⟨owner, hOwner, hOwnerId, hCarries⟩
        rw [eq_of_fromString hMem hOwner hId hOwnerId] at hCarries
        exact hCarries
      · exact fun hCarries => ⟨user, hMem, hId, hCarries⟩
    rw [after_post request info hMem hId, hOwned]
    constructor
    · intro hProtected other hOther hOtherId hNew
      rw [eq_of_fromString hMem hOther hId hOtherId] at hNew ⊢
      refine hProtected ⟨user.id, hId, ?_⟩
      rw [hSaved, findById_of_mem hMem]
      exact fun hSame => hNew (edited_eq_iff.mp (Option.some.inj hSame))
    · rintro hHarmless ⟨id, hSome, hChanged⟩
      rw [hId] at hSome
      cases hSome
      refine hHarmless user hMem hId ?_
      intro hSame
      rw [hSaved, findById_of_mem hMem, edited_eq_iff.mpr hSame] at hChanged
      exact hChanged rfl
  · rw [after_post_unknown request info hUser]
    refine iff_of_true ?_ ?_
    · rintro ⟨id, -, hChanged⟩
      exact absurd rfl hChanged
    · exact fun user hMem hId => absurd ⟨user, hMem, hId⟩ hUser

/-- No row is added or removed, and the rows of the other users stay as they are. -/
theorem after_others (F : UuidFormat Uuid) (db : Users Uuid) (r : PageRequest) :
    (r.after F db).map User.id = db.1.map User.id ∧
      ∀ other, F.fromString r.userId ≠ some other →
        UserRepository.findById (r.after F db) other = UserRepository.findById db.1 other := by
  cases r with
  | userSkills request userId => exact ⟨rfl, fun _ _ => rfl⟩
  | newPersonalInfoPost request userId info =>
    by_cases hUser : ∃ user ∈ db.1, F.fromString userId = some user.id
    · obtain ⟨user, hMem, hId⟩ := hUser
      rw [after_post request info hMem hId]
      refine ⟨map_key_overwrite _ _ _, ?_⟩
      intro other hOther
      exact find?_overwrite_of_ne fun hEq => hOther (hId.trans (congrArg some hEq))
    · rw [after_post_unknown request info hUser]
      exact ⟨rfl, fun _ _ => rfl⟩

/-- **Access control.** Exactly the harmless requests are protected; no request changes the row of
another user. -/
theorem protected_iff (F : UuidFormat Uuid) (db : Users Uuid) (r : PageRequest) :
    (Protected F db r ↔ Harmless F db r) ∧
      (r.after F db).map User.id = db.1.map User.id ∧
      ∀ other, F.fromString r.userId ≠ some other →
        UserRepository.findById (r.after F db) other = UserRepository.findById db.1 other := by
  refine ⟨?_, after_others F db r⟩
  cases r with
  | userSkills request userId => exact userSkills_protected_iff F db request userId
  | newPersonalInfoPost request userId info =>
    exact newPersonalInfoPost_protected_iff F db request userId info

end Pages

/-! ## Requests of others -/

/-- The id of Mallory. -/
def malloryId : JavaString := javaString "6fa459ea-ee8a-3ca4-894e-db77e160355e"

/-- Mallory, who is logged in. -/
def mallory : User JavaString :=
  { alice with id := malloryId, email := javaString "mallory@example.com", sessionId := loginId }

def twoUsers : Users JavaString := ⟨[alice, mallory], by decide⟩

/-- Alice has no session. -/
theorem not_owned_aliceId {r : PageRequest} (h : r.userId = aliceId) :
    ¬Owned textFormat twoUsers r := by
  rintro ⟨user, hMem, hId, cookie, -, -, id, -, hSession⟩
  rw [h] at hId
  rcases List.mem_cons.mp hMem with rfl | hMem
  · cases hSession
  · rw [List.mem_singleton.mp hMem] at hId
    exact absurd hId (by decide)

/-- With the session of Mallory the skills page of Alice is shown, and without any session her
profile is changed. -/
theorem not_protected_twoUsers :
    ¬Protected textFormat twoUsers
      (.userSkills [⟨javaString "SessionId", loginId, 3600⟩] aliceId) ∧
    ¬Protected textFormat twoUsers
      (.newPersonalInfoPost [] aliceId ⟨javaString "4.0", none, none⟩) := by
  refine ⟨fun h => not_owned_aliceId rfl (h ⟨_, rfl⟩), fun h => not_owned_aliceId rfl (h ?_)⟩
  exact ⟨aliceId, rfl, by decide⟩

end Windborne.TechEntrance
