import Windborne.Library.Results
import Windborne.TechEntrance.SessionSafety

/-!
# Concurrent signups

`userRegistration` looks the email up and saves the user in two repository calls, and the table
has no constraint on emails. Emails stay unique, and everybody can log in, exactly in the runs in
which every saved user has a password and an email that is still new when it is saved. Emails are
compared exactly, in the queries and in the results; a collation of the database that takes
different texts for equal is not modelled.
-/

namespace Windborne.TechEntrance

open Library
open Spring (JavaString javaString)

variable {Uuid : Type} [DecidableEq Uuid] {P : Type} [DecidableEq P]

/-! ## Logins -/

/-- `authenticate`; `random` is the random UUID. -/
def authenticate (db : List (User Uuid)) (email password : Option JavaString) (random : Uuid) :
    Except Failure (Option Uuid × List (User Uuid)) := do
  let some foundUser ← UserRepository.findByEmail db email | return (none, db)
  let some foundPassword := foundUser.password | throw .nullPointer
  if some foundPassword = password then
    return (some random, UserRepository.save db { foundUser with sessionId := some random })
  else return (none, db)

omit [DecidableEq P] in
/-- A login gets a session when the password of the one user with the email matches. -/
theorem authenticate_eq_some {db db' : List (User Uuid)} {email password : Option JavaString}
    {random id : Uuid} (h : authenticate db email password random = .ok (some id, db')) :
    ∃ foundUser foundPassword, UserRepository.findByEmail db email = .ok (some foundUser) ∧
      foundUser.password = some foundPassword ∧ some foundPassword = password ∧ id = random ∧
      db' = UserRepository.save db { foundUser with sessionId := some random } := by
  unfold authenticate at h
  obtain ⟨found, hFound, h⟩ := bind_eq_ok.mp h
  cases found with
  | none => cases h
  | some foundUser =>
    dsimp only at h
    cases hPassword : foundUser.password with
    | none =>
      rw [hPassword] at h
      cases h
    | some foundPassword =>
      rw [hPassword] at h
      dsimp only at h
      split_ifs at h with hSame
      · cases h
        exact ⟨foundUser, foundPassword, hFound, hPassword, hSame, rfl, by rw [hPassword]⟩
      · cases h

/-- A request that runs alone does what `authenticate` says. -/
theorem run_authenticate {F : UuidFormat Uuid} {requests : P → Request} {s : State Uuid P}
    {a : Action Uuid P} {email password : Option JavaString} {id : Uuid} {db : List (User Uuid)}
    (hPc : s.pc a.process = .start) (hRequest : requests a.process = .authenticate email password)
    (hFresh : a.uuid ∉ s.used) (h : authenticate s.db email password a.uuid = .ok (some id, db)) :
    ∃ t, Run (Step F requests) s [a, a] t ∧ t.db = db ∧
      t.pc a.process = .done (.session (some id)) := by
  obtain ⟨foundUser, foundPassword, hFound, hPassword, hSame, rfl, rfl⟩ := authenticate_eq_some h
  obtain ⟨u, hFirst, hDb, hNext⟩ : ∃ u, Step F requests s a u ∧ u.db = s.db ∧
      u.pc a.process =
        .saveSession { foundUser with sessionId := some a.uuid } a.uuid := by
    unfold Step step startAuthenticate
    rw [hPc, hRequest]
    dsimp only
    rw [hFound]
    dsimp only
    rw [hPassword]
    dsimp only
    rw [if_pos hSame, if_neg hFresh]
    exact ⟨_, rfl, rfl, Function.update_self _ _ _⟩
  obtain ⟨t, hSecond, hSaved, hDone⟩ : ∃ t, Step F requests u a t ∧
      t.db = UserRepository.save s.db { foundUser with sessionId := some a.uuid } ∧
      t.pc a.process = .done (.session (some a.uuid)) := by
    unfold Step step
    rw [hNext, ← hDb]
    exact ⟨_, rfl, rfl, Function.update_self _ _ _⟩
  exact ⟨t, (Run.single hFirst).append (Run.single hSecond), hSaved, hDone⟩

/-- The login gets a session. -/
def LogsIn (db : List (User Uuid)) (email password : Option JavaString) : Prop :=
  ∀ random, ∃ db', authenticate db email password random = .ok (some random, db')

/-- Who can log in gets the new session from a request that runs alone. -/
theorem LogsIn.run {F : UuidFormat Uuid} {requests : P → Request} {s : State Uuid P}
    {a : Action Uuid P} {email password : Option JavaString}
    (h : LogsIn s.db email password) (hPc : s.pc a.process = .start)
    (hRequest : requests a.process = .authenticate email password) (hFresh : a.uuid ∉ s.used) :
    ∃ t, Run (Step F requests) s [a, a] t ∧ t.pc a.process = .done (.session (some a.uuid)) := by
  obtain ⟨db, hLogin⟩ := h a.uuid
  obtain ⟨t, hRun, -, hDone⟩ := run_authenticate (F := F) hPc hRequest hFresh hLogin
  exact ⟨t, hRun, hDone⟩

/-! ## Signups -/

/-- The submitted fields of a new user. -/
structure SignupForm where
  firstName : Option JavaString
  lastName : Option JavaString
  phoneNumber : Option JavaString
  gpa : Option JavaString
  city : Option JavaString
  state : Option JavaString
  email : Option JavaString
  password : Option JavaString

/-- The user that is saved. -/
def SignupForm.user (form : SignupForm) (id sessionId : Uuid) : User Uuid where
  id := id
  firstName := form.firstName
  lastName := form.lastName
  phoneNumber := form.phoneNumber
  gpa := form.gpa
  city := form.city
  state := form.state
  email := form.email
  password := form.password
  sessionId := some sessionId

/-- The signup page, the way to the page of the new user with a session cookie, or an
exception. -/
inductive SignupResponse (Uuid : Type) where
  | signup
  | redirectPersonalInfo (id sessionId : Uuid)
  | failed (failure : Failure)

/-- The next repository call of a signup. -/
inductive SignupPc (Uuid : Type) where
  | start
  | saveUser (sessionId : Uuid)
  | done (response : SignupResponse Uuid)

structure Signups (Uuid P : Type) where
  db : List (User Uuid)
  pc : P → SignupPc Uuid
  used : List Uuid

namespace Signups

def goto (s : Signups Uuid P) (p : P) (pc : SignupPc Uuid) : Signups Uuid P :=
  { s with pc := Function.update s.pc p pc }

/-- The next repository call of `userRegistration`; the UUIDs of sessions and users are fresh. -/
def step (requests : P → SignupForm) (s : Signups Uuid P) (a : Action Uuid P) :
    Option (Signups Uuid P) :=
  match s.pc a.process with
  | .start =>
    match UserRepository.findByEmail s.db (requests a.process).email with
    | .error failure => some (s.goto a.process (.done (.failed failure)))
    | .ok (some _) => some (s.goto a.process (.done .signup))
    | .ok none =>
      if a.uuid ∈ s.used then none
      else some { s.goto a.process (.saveUser a.uuid) with used := a.uuid :: s.used }
  | .saveUser sessionId =>
    if a.uuid ∈ s.used then none
    else some { s.goto a.process (.done (.redirectPersonalInfo a.uuid sessionId)) with
      db := s.db ++ [(requests a.process).user a.uuid sessionId]
      used := a.uuid :: s.used }
  | .done _ => none

def Step (requests : P → SignupForm) (s : Signups Uuid P) (a : Action Uuid P)
    (t : Signups Uuid P) : Prop := step requests s a = some t

/-- Users with different emails who have passwords, and no signup yet. -/
structure Initial (s : Signups Uuid P) : Prop where
  emails : (s.db.map User.email).Nodup
  passwords : ∀ user ∈ s.db, user.password ≠ none
  pc : ∀ p, s.pc p = .start

/-- **Unique emails.** An email has at most one user, and every user can log in, the new ones
with what they have given at signup. -/
structure Sound (requests : P → SignupForm) (s : Signups Uuid P) : Prop where
  emails : (s.db.map User.email).Nodup
  found : ∀ email, ∃ user, UserRepository.findByEmail s.db email = .ok user
  logins : ∀ user ∈ s.db, LogsIn s.db user.email user.password
  registered : ∀ p id sessionId, s.pc p = .done (.redirectPersonalInfo id sessionId) →
    LogsIn s.db (requests p).email (requests p).password

/-- The condition on a step: a user who is saved has a password and a new email. -/
def SavesNewEmail (requests : P → SignupForm) (s : Signups Uuid P) (a : Action Uuid P) : Prop :=
  ∀ sessionId, s.pc a.process = .saveUser sessionId →
    (requests a.process).email ∉ s.db.map User.email ∧ (requests a.process).password ≠ none

instance (requests : P → SignupForm) (s : Signups Uuid P) (a : Action Uuid P) :
    Decidable (SavesNewEmail requests s a) :=
  match h : s.pc a.process with
  | .saveUser sessionId =>
    decidable_of_iff
      ((requests a.process).email ∉ s.db.map User.email ∧ (requests a.process).password ≠ none)
      ⟨fun hNew _ _ => hNew, fun hAll => hAll sessionId h⟩
  | .start | .done _ => isTrue fun _ hSave => nomatch h.symm.trans hSave

/-! ## The invariant -/

structure Inv (requests : P → SignupForm) (s : Signups Uuid P) : Prop where
  emails : (s.db.map User.email).Nodup
  passwords : ∀ user ∈ s.db, user.password ≠ none
  registered : ∀ p id sessionId, s.pc p = .done (.redirectPersonalInfo id sessionId) →
    (requests p).user id sessionId ∈ s.db

end Signups

section Emails

variable {db : List (User Uuid)} {user : User Uuid}

omit [DecidableEq Uuid] in
/-- In a table with different emails the row of an email is found. -/
theorem findByEmail_of_mem (h : (db.map User.email).Nodup) (hMem : user ∈ db) :
    UserRepository.findByEmail db user.email = .ok (some user) := by
  unfold UserRepository.findByEmail
  rw [filter_eq_singleton h hMem]
  rfl

omit [DecidableEq Uuid] in
theorem findByEmail_of_not_mem {email : Option JavaString} (h : email ∉ db.map User.email) :
    UserRepository.findByEmail db email = .ok none := by
  have hNone : db.filter (·.email = email) = [] := by
    rw [List.filter_eq_nil_iff]
    intro user hMem hEq
    exact h (List.mem_map.mpr ⟨user, hMem, of_decide_eq_true hEq⟩)
  unfold UserRepository.findByEmail
  rw [hNone]
  rfl

omit [DecidableEq Uuid] in
theorem findByEmail_total (h : (db.map User.email).Nodup) (email : Option JavaString) :
    ∃ user, UserRepository.findByEmail db email = .ok user := by
  by_cases hEmail : email ∈ db.map User.email
  · obtain ⟨user, hMem, rfl⟩ := List.mem_map.mp hEmail
    exact ⟨some user, findByEmail_of_mem h hMem⟩
  · exact ⟨none, findByEmail_of_not_mem hEmail⟩

/-- A user whose email is unique can log in, unless the password is null. -/
theorem logsIn_of_mem (h : (db.map User.email).Nodup) (hMem : user ∈ db)
    (hPassword : user.password ≠ none) : LogsIn db user.email user.password := by
  intro random
  obtain ⟨password, hSome⟩ := Option.ne_none_iff_exists'.mp hPassword
  refine ⟨UserRepository.save db { user with sessionId := some random }, ?_⟩
  unfold authenticate
  rw [findByEmail_of_mem h hMem, ok_bind]
  dsimp only
  rw [hSome]
  dsimp only
  rw [if_pos rfl]
  rfl

theorem password_of_logsIn {email password : Option JavaString} (random : Uuid)
    (h : LogsIn db email password) : password ≠ none := by
  obtain ⟨db', hRun⟩ := h random
  obtain ⟨foundUser, foundPassword, -, -, hSame, -⟩ := authenticate_eq_some hRun
  rw [← hSame]
  exact Option.some_ne_none _

end Emails

namespace Signups

variable {requests : P → SignupForm} {s t : Signups Uuid P} {a : Action Uuid P}

omit [DecidableEq Uuid] [DecidableEq P] in
theorem Initial.inv (h : Initial s) : Inv requests s where
  emails := h.emails
  passwords := h.passwords
  registered p id sessionId hPc := by
    rw [h.pc p] at hPc
    cases hPc

omit [DecidableEq P] in
theorem Inv.sound (h : Inv requests s) : Sound requests s where
  emails := h.emails
  found := findByEmail_total h.emails
  logins user hMem := logsIn_of_mem h.emails hMem (h.passwords user hMem)
  registered p id sessionId hPc := by
    have hMem := h.registered p id sessionId hPc
    exact logsIn_of_mem h.emails hMem (h.passwords _ hMem)

/-- A step either changes no row or saves the user of its request. -/
theorem step_cases (hStep : Step requests s a t) :
    ((∀ sessionId, s.pc a.process ≠ .saveUser sessionId) ∧ t.db = s.db ∧
      ∀ p id sessionId, t.pc p = .done (.redirectPersonalInfo id sessionId) →
        s.pc p = .done (.redirectPersonalInfo id sessionId)) ∨
    ∃ sessionId, s.pc a.process = .saveUser sessionId ∧
      t.db = s.db ++ [(requests a.process).user a.uuid sessionId] ∧
      t.pc = Function.update s.pc a.process (.done (.redirectPersonalInfo a.uuid sessionId)) := by
  have hGoto : ∀ {pc : SignupPc Uuid} {p id sessionId},
      pc ≠ .done (.redirectPersonalInfo id sessionId) →
      (s.goto a.process pc).pc p = .done (.redirectPersonalInfo id sessionId) →
      s.pc p = .done (.redirectPersonalInfo id sessionId) := by
    intro pc p id sessionId hNe hPc
    unfold goto at hPc
    dsimp only at hPc
    by_cases hp : p = a.process
    · rw [hp, Function.update_self] at hPc
      exact absurd hPc hNe
    · rw [Function.update_of_ne hp] at hPc
      exact hPc
  unfold Step step at hStep
  cases hPc : s.pc a.process with
  | start =>
    rw [hPc] at hStep
    dsimp only at hStep
    cases hFound : UserRepository.findByEmail s.db (requests a.process).email with
    | error failure =>
      rw [hFound] at hStep
      cases hStep
      exact Or.inl ⟨nofun, rfl, fun _ _ _ => hGoto nofun⟩
    | ok found =>
      rw [hFound] at hStep
      cases found with
      | some user =>
        cases hStep
        exact Or.inl ⟨nofun, rfl, fun _ _ _ => hGoto nofun⟩
      | none =>
        dsimp only at hStep
        split_ifs at hStep
        cases hStep
        exact Or.inl ⟨nofun, rfl, fun _ _ _ => hGoto nofun⟩
  | saveUser sessionId =>
    rw [hPc] at hStep
    dsimp only at hStep
    split_ifs at hStep
    cases hStep
    exact Or.inr ⟨sessionId, rfl, rfl, rfl⟩
  | done response =>
    rw [hPc] at hStep
    cases hStep

theorem Inv.step (h : Inv requests s) (hStep : Step requests s a t)
    (hGuard : SavesNewEmail requests s a) : Inv requests t := by
  rcases step_cases hStep with ⟨-, hDb, hPc⟩ | ⟨sessionId, hSave, hDb, hPc⟩
  · constructor
    · rw [hDb]
      exact h.emails
    · rw [hDb]
      exact h.passwords
    · intro p id sessionId hDone
      rw [hDb]
      exact h.registered p id sessionId (hPc p id sessionId hDone)
  · obtain ⟨hEmail, hPassword⟩ := hGuard sessionId hSave
    constructor
    · rw [hDb]
      refine nodup_map_snoc_iff.mpr ⟨h.emails, ?_⟩
      intro user hMem hSame
      exact hEmail (List.mem_map.mpr ⟨user, hMem, hSame⟩)
    · rw [hDb]
      exact forall_mem_snoc h.passwords hPassword
    · intro p id sessionId' hDone
      rw [hDb]
      rw [hPc] at hDone
      by_cases hp : p = a.process
      · rw [hp, Function.update_self] at hDone
        cases hDone
        rw [hp]
        exact List.mem_concat_self
      · rw [Function.update_of_ne hp] at hDone
        exact List.mem_append_left _ (h.registered p id sessionId' hDone)

/-- A step that leaves a sound state has saved no second user of an email. -/
theorem savesNewEmail_of_sound (hStep : Step requests s a t) (hSound : Sound requests t) :
    SavesNewEmail requests s a := by
  intro sessionId hSave
  rcases step_cases hStep with ⟨hNot, -, -⟩ | ⟨sessionId', -, hDb, -⟩
  · exact absurd hSave (hNot sessionId)
  · have hEmails := hSound.emails
    have hMem : (requests a.process).user a.uuid sessionId' ∈ t.db := by
      rw [hDb]
      exact List.mem_concat_self
    rw [hDb] at hEmails
    obtain ⟨-, hNew⟩ := nodup_map_snoc_iff.mp hEmails
    refine ⟨?_, password_of_logsIn a.uuid (hSound.logins _ hMem)⟩
    intro hUsed
    obtain ⟨user, hUser, hSame⟩ := List.mem_map.mp hUsed
    exact hNew user hUser hSame

/-- **Emails.** In every run whose saved users have passwords and new emails, the emails are unique
and everybody can log in; and a run that saves another user passes a state in which this fails. -/
theorem sound_iff (requests : P → SignupForm) (h : Initial s) :
    (∀ tr t, Run (Guarded (Step requests) (SavesNewEmail requests)) s tr t → Sound requests t) ∧
      ∀ tr t, Run (Keeping (Step requests) (Sound requests)) s tr t ↔
        Run (Guarded (Step requests) (SavesNewEmail requests)) s tr t := by
  constructor
  · intro tr t hRun
    have hInv : Inv requests t := hRun.invariant h.inv fun _ _ _ hInv hStep =>
      hInv.step hStep.1 hStep.2
    exact hInv.sound
  · intro tr t
    exact Run.keeping_iff_guarded h.inv (fun _ _ _ hInv => hInv.step) (fun _ hInv => hInv.sound)
      fun _ _ _ _ hStep hSound => savesNewEmail_of_sound hStep hSound

end Signups

/-! ## Two signups with one email -/

namespace Signups

def emptyTable : Signups JavaString Bool where
  db := []
  pc _ := .start
  used := []

theorem initial_emptyTable : Initial emptyTable where
  emails := List.nodup_nil
  passwords _ h := by cases h
  pc _ := rfl

/-- The form that both clients submit. -/
def aliceForm : SignupForm where
  firstName := none
  lastName := none
  phoneNumber := none
  gpa := none
  city := none
  state := none
  email := javaString "alice@example.com"
  password := javaString "secret"

def secondId : JavaString := javaString "6fa459ea-ee8a-3ca4-894e-db77e160355e"

def secondLoginId : JavaString := javaString "9073926b-929f-31c2-abc9-fad77ae3e8eb"

/-- One after the other, the first client gets an account and the second one the signup page. The
login of the new user then returns a session. -/
theorem sound_iff_emptyTable : ∃ t : Signups JavaString Bool,
    Sound (fun _ => aliceForm) t ∧ t.db = [aliceForm.user aliceId loginId] ∧
      ∃ u : State JavaString Bool,
        Run (TechEntrance.Step textFormat fun _ =>
            .authenticate aliceForm.email aliceForm.password)
          ⟨t.db, fun _ => .start, [loginId], [(aliceId, loginId)]⟩
          [⟨false, secondLoginId⟩, ⟨false, secondLoginId⟩] u ∧
        u.pc false = .done (.session (some secondLoginId)) := by
  obtain ⟨t, hRun, hDb⟩ : ∃ t, Run (Guarded (Step fun _ => aliceForm)
      (SavesNewEmail fun _ => aliceForm)) emptyTable
      [⟨false, loginId⟩, ⟨false, aliceId⟩, ⟨true, loginId⟩] t ∧
      t.db = [aliceForm.user aliceId loginId] :=
    ⟨_, Run.guarded_of_foldlM rfl, rfl⟩
  have hSound := (sound_iff (fun _ => aliceForm) initial_emptyTable).1 _ t hRun
  have hLogin := hSound.logins (aliceForm.user aliceId loginId) (hDb ▸ List.mem_cons_self)
  have hFresh : secondLoginId ∉ [loginId] := by decide
  exact ⟨t, hSound, hDb, hLogin.run rfl rfl hFresh⟩

/-- Both clients look the email up before one of them saves. -/
theorem not_forall_sound :
    ¬ ∀ (Uuid P : Type) [DecidableEq Uuid] [DecidableEq P] (requests : P → SignupForm)
      (s t : Signups Uuid P), Initial s → Reachable (Step requests) s t → Sound requests t := by
  intro hAll
  obtain ⟨t, hRun, hDb⟩ : ∃ t, Run (Step fun _ => aliceForm) emptyTable
      [⟨false, loginId⟩, ⟨true, secondLoginId⟩, ⟨false, aliceId⟩, ⟨true, secondId⟩] t ∧
      t.db.map User.email = [aliceForm.email, aliceForm.email] :=
    ⟨_, Run.of_foldlM rfl, rfl⟩
  have hEmails := (hAll JavaString Bool _ emptyTable t initial_emptyTable ⟨_, hRun⟩).emails
  rw [hDb] at hEmails
  exact absurd hEmails (by decide)

end Signups

end Windborne.TechEntrance
