import Mathlib.Logic.Function.Basic
import Windborne.Library.Rows
import Windborne.Library.Runs
import Windborne.Spring.Store

/-!
# Logins and profile edits of the TechEntrance application

A request is a process whose steps are its calls of the user repository. `authenticate` and
`newPersonalInfoPost` read a row, change some of its fields and save the whole row. The
random UUID of a login is fresh. `log` records the session ids that `authenticate` has
returned, after those that the rows hold at the start. The queries compare emails exactly; the
collation of the database is not modelled.
-/

namespace Windborne.TechEntrance

open Library
open Spring (JavaString javaString)

/-! ## Users -/

variable {Uuid : Type} [DecidableEq Uuid]

/-- A row of the table `users`. -/
structure User (Uuid : Type) where
  id : Uuid
  firstName : Option JavaString
  lastName : Option JavaString
  phoneNumber : Option JavaString
  gpa : Option JavaString
  city : Option JavaString
  state : Option JavaString
  email : Option JavaString
  password : Option JavaString
  sessionId : Option Uuid
  deriving DecidableEq

/-- The exceptions that end a request. -/
inductive Failure where
  | nullPointer
  | illegalArgument
  | incorrectResultSize
  deriving DecidableEq

/-- How UUIDs are written. -/
structure UuidFormat (Uuid : Type) where
  toString : Uuid → JavaString
  fromString : JavaString → Option Uuid
  fromString_toString : ∀ id, fromString (toString id) = some id

/-- The result of a query method for at most one entity. -/
def single {α : Type} : List α → Except Failure (Option α)
  | [] => .ok none
  | [x] => .ok (some x)
  | _ => .error .incorrectResultSize

namespace UserRepository

def findByEmail (db : List (User Uuid)) (email : Option JavaString) :
    Except Failure (Option (User Uuid)) := single (db.filter (·.email = email))

def findBySessionId (db : List (User Uuid)) (sessionId : Uuid) :
    Except Failure (Option (User Uuid)) := single (db.filter (·.sessionId = some sessionId))

def findById (db : List (User Uuid)) (id : Uuid) : Option (User Uuid) := db.find? (·.id = id)

/-- Rows are never deleted, so the row of a user that was read is still there. -/
def save (db : List (User Uuid)) (user : User Uuid) : List (User Uuid) :=
  overwrite User.id user db

end UserRepository

/-! ## Sessions -/

structure Cookie where
  name : JavaString
  value : JavaString
  maxAge : Int
  deriving DecidableEq

/-- The loop over the cookies of a request. -/
def validateSession (F : UuidFormat Uuid) (db : List (User Uuid)) :
    List Cookie → Except Failure (Option Cookie)
  | [] => .ok none
  | cookie :: cookies =>
    if cookie.name = javaString "SessionId" then
      match F.fromString cookie.value with
      | none => .error .illegalArgument
      | some sessionId =>
        match UserRepository.findBySessionId db sessionId with
        | .error failure => .error failure
        | .ok (some _) => .ok (some { cookie with maxAge := 10 })
        | .ok none => validateSession F db cookies
    else validateSession F db cookies

/-- A request that carries the session id, as `login` sets it, is let through. -/
def Accepts (F : UuidFormat Uuid) (db : List (User Uuid)) (sessionId : Uuid) : Prop :=
  ∃ cookie, validateSession F db [⟨javaString "SessionId", F.toString sessionId, 3600⟩] =
    .ok (some cookie)

/-! ## Requests -/

inductive Request where
  | authenticate (email password : Option JavaString)
  | newPersonalInfoPost (userId : JavaString) (gpa city state : Option JavaString)

inductive Response (Uuid : Type) where
  | session (id : Option Uuid)
  | error
  | redirect
  | failed (failure : Failure)

/-- The next repository call of a request. -/
inductive Pc (Uuid : Type) where
  | start
  | saveSession (foundUser : User Uuid) (sessionId : Uuid)
  | saveInfo (foundUser : User Uuid)
  | done (response : Response Uuid)

variable {P : Type} [DecidableEq P]

structure State (Uuid P : Type) where
  db : List (User Uuid)
  pc : P → Pc Uuid
  used : List Uuid
  log : List (Uuid × Uuid)

/-- A process takes its next step; `uuid` is the next value of `UUID.randomUUID`. -/
structure Action (Uuid P : Type) where
  process : P
  uuid : Uuid

def State.goto (s : State Uuid P) (p : P) (pc : Pc Uuid) : State Uuid P :=
  { s with pc := Function.update s.pc p pc }

/-- `authenticate` up to the call of `saveUser`. -/
def startAuthenticate (s : State Uuid P) (a : Action Uuid P) (email password : Option JavaString) :
    Option (State Uuid P) :=
  match UserRepository.findByEmail s.db email with
  | .error failure => some (s.goto a.process (.done (.failed failure)))
  | .ok none => some (s.goto a.process (.done (.session none)))
  | .ok (some foundUser) =>
    match foundUser.password with
    | none => some (s.goto a.process (.done (.failed .nullPointer)))
    | some foundPassword =>
      if some foundPassword = password then
        if a.uuid ∈ s.used then none
        else
          some { s.goto a.process (.saveSession { foundUser with sessionId := some a.uuid } a.uuid)
            with used := a.uuid :: s.used }
      else some (s.goto a.process (.done (.session none)))

/-- `newPersonalInfoPost` up to the call of `saveUser`. -/
def startPersonalInfo (F : UuidFormat Uuid) (s : State Uuid P) (p : P) (userId : JavaString)
    (gpa city state : Option JavaString) : State Uuid P :=
  match F.fromString userId with
  | none => s.goto p (.done (.failed .illegalArgument))
  | some id =>
    match UserRepository.findById s.db id with
    | none => s.goto p (.done .error)
    | some foundUser => s.goto p (.saveInfo { foundUser with gpa, city, state })

/-- The next repository call of a process. -/
def step (F : UuidFormat Uuid) (requests : P → Request) (s : State Uuid P) (a : Action Uuid P) :
    Option (State Uuid P) :=
  match s.pc a.process with
  | .start =>
    match requests a.process with
    | .authenticate email password => startAuthenticate s a email password
    | .newPersonalInfoPost userId gpa city state =>
      some (startPersonalInfo F s a.process userId gpa city state)
  | .saveSession foundUser sessionId =>
    some { s.goto a.process (.done (.session (some sessionId))) with
      db := UserRepository.save s.db foundUser
      log := s.log ++ [(foundUser.id, sessionId)] }
  | .saveInfo foundUser =>
    some { s.goto a.process (.done .redirect) with db := UserRepository.save s.db foundUser }
  | .done _ => none

def Step (F : UuidFormat Uuid) (requests : P → Request) (s : State Uuid P) (a : Action Uuid P)
    (t : State Uuid P) : Prop := step F requests s a = some t

/-- Different users with different sessions, whose UUIDs are in use, and no request yet. -/
structure Initial (s : State Uuid P) : Prop where
  ids : (s.db.map User.id).Nodup
  sessions : (s.db.filterMap User.sessionId).Nodup
  used : ∀ id ∈ s.db.filterMap User.sessionId, id ∈ s.used
  log : s.log = s.db.filterMap fun user => user.sessionId.map fun id => (user.id, id)
  pc : ∀ p, s.pc p = .start

/-! ## The session ids of a user -/

/-- The session ids that a user has been given, oldest first. -/
def sessionsOf (log : List (Uuid × Uuid)) (user : Uuid) : List Uuid :=
  (log.filter (·.1 = user)).map (·.2)

/-- The last session id that a user has been given is accepted and the earlier ones are
rejected. -/
def Honoured (F : UuidFormat Uuid) (s : State Uuid P) : Prop :=
  ∀ user earlier last, sessionsOf s.log user = earlier ++ [last] →
    Accepts F s.db last ∧ ∀ id ∈ earlier, ¬ Accepts F s.db id

/-- The condition on a step: profile data is saved only while the user's session is still the
one that was read. -/
def SavesCurrent (s : State Uuid P) (a : Action Uuid P) : Prop :=
  ∀ foundUser, s.pc a.process = .saveInfo foundUser →
    ∀ user ∈ s.db, user.id = foundUser.id → user.sessionId = foundUser.sessionId

instance (s : State Uuid P) (a : Action Uuid P) : Decidable (SavesCurrent s a) :=
  match h : s.pc a.process with
  | .saveInfo foundUser =>
    decidable_of_iff
      (∀ user ∈ s.db, user.id = foundUser.id → user.sessionId = foundUser.sessionId)
      ⟨fun hAll found hFound => by cases h.symm.trans hFound; exact hAll, fun hAll => hAll _ h⟩
  | .start | .saveSession _ _ | .done _ => isTrue fun _ hFound => nomatch h.symm.trans hFound

end Windborne.TechEntrance
