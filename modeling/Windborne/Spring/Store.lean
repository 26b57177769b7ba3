import Windborne.Library.Rows

/-!
# Entities, tables and repositories of the Spring service

The tables are those of `data.sql`. A database is a pair of tables that meets the declared
constraints, so a statement that would break one of them fails and changes nothing. The
repositories follow Spring Data JPA: `save` inserts with a fresh id when the id is null or
matches no row, and otherwise overwrites the row with that id.
-/

namespace Windborne.Spring

open Library

/-- Java strings as sequences of UTF-16 code units. -/
abbrev JavaString := List UInt16

/-- A text of the basic multilingual plane. -/
def javaString (text : String) : JavaString := text.toList.map fun c => c.toNat.toUInt16

/-! ## Entities and rows -/

structure Account where
  accountId : Option Int
  username : Option JavaString
  password : Option JavaString
  deriving DecidableEq

structure Message where
  messageId : Option Int
  postedBy : Option Int
  messageText : Option JavaString
  timePostedEpoch : Option Int
  deriving DecidableEq

structure AccountRow where
  accountId : Int
  username : JavaString
  password : Option JavaString
  deriving DecidableEq

structure MessageRow where
  messageId : Int
  postedBy : Option Int
  messageText : Option JavaString
  timePostedEpoch : Option Int
  deriving DecidableEq

def AccountRow.entity (r : AccountRow) : Account :=
  { accountId := r.accountId, username := r.username, password := r.password }

def MessageRow.entity (r : MessageRow) : Message :=
  { messageId := r.messageId, postedBy := r.postedBy, messageText := r.messageText,
    timePostedEpoch := r.timePostedEpoch }

structure Tables where
  account : List AccountRow
  message : List MessageRow
  deriving DecidableEq

/-- `varchar(255)` -/
def Varchar (text : JavaString) : Prop := text.length ≤ 255

instance : DecidablePred Varchar := fun text => inferInstanceAs (Decidable (text.length ≤ 255))

/-- The constraints that `data.sql` declares. -/
structure Schema (t : Tables) : Prop where
  accountId : (t.account.map (·.accountId)).Nodup
  username : (t.account.map (·.username)).Nodup
  accountWidth : ∀ r ∈ t.account, Varchar r.username ∧ ∀ p ∈ r.password, Varchar p
  messageId : (t.message.map (·.messageId)).Nodup
  messageWidth : ∀ r ∈ t.message, ∀ text ∈ r.messageText, Varchar text
  postedBy : ∀ r ∈ t.message, ∀ id ∈ r.postedBy, id ∈ t.account.map (·.accountId)

instance (t : Tables) : Decidable (Schema t) :=
  decidable_of_iff
    ((t.account.map (·.accountId)).Nodup ∧ (t.account.map (·.username)).Nodup ∧
      (∀ r ∈ t.account, Varchar r.username ∧ ∀ p ∈ r.password, Varchar p) ∧
      (t.message.map (·.messageId)).Nodup ∧
      (∀ r ∈ t.message, ∀ text ∈ r.messageText, Varchar text) ∧
      ∀ r ∈ t.message, ∀ id ∈ r.postedBy, id ∈ t.account.map (·.accountId))
    ⟨fun ⟨h1, h2, h3, h4, h5, h6⟩ => ⟨h1, h2, h3, h4, h5, h6⟩,
      fun h => ⟨h.1, h.2, h.3, h.4, h.5, h.6⟩⟩

/-- The states of the database. -/
abbrev Db := { t : Tables // Schema t }

/-! ## Repositories -/

/-- The exceptions that end a request. -/
inductive Failure where
  | nullPointer
  | illegalArgument
  | dataIntegrityViolation
  | emptyResultDataAccess
  deriving DecidableEq

abbrev Throws := Except Failure

/-- The ids that the persistence provider generates for inserted rows. -/
structure FreshIds where
  account : List AccountRow → Int
  message : List MessageRow → Int
  account_fresh : ∀ rows, ∀ r ∈ rows, r.accountId ≠ account rows
  message_fresh : ∀ rows, ∀ r ∈ rows, r.messageId ≠ message rows

/-- The database takes the new tables or reports the constraint that they break. -/
def commit (t : Tables) : Throws Db :=
  if h : Schema t then .ok ⟨t, h⟩ else .error .dataIntegrityViolation

namespace AccountRepository

def findById (db : Db) : Option Int → Throws (Option Account)
  | none => .error .illegalArgument
  | some id => .ok ((db.1.account.find? (·.accountId = id)).map AccountRow.entity)

def findByUsername (db : Db) (uName : JavaString) : Option Account :=
  (db.1.account.find? (·.username = uName)).map AccountRow.entity

def save (ids : FreshIds) (db : Db) (a : Account) : Throws (Db × Account) :=
  match a.username with
  | none => .error .dataIntegrityViolation
  | some username => do
    let matched := a.accountId.filter (· ∈ db.1.account.map (·.accountId))
    let row : AccountRow :=
      { accountId := matched.getD (ids.account db.1.account), username, password := a.password }
    let account := match matched with
      | none => db.1.account ++ [row]
      | some _ => overwrite AccountRow.accountId row db.1.account
    return (← commit { db.1 with account }, row.entity)

end AccountRepository

namespace MessageRepository

def save (ids : FreshIds) (db : Db) (m : Message) : Throws (Db × Message) := do
  let matched := m.messageId.filter (· ∈ db.1.message.map (·.messageId))
  let row : MessageRow :=
    { messageId := matched.getD (ids.message db.1.message), postedBy := m.postedBy,
      messageText := m.messageText, timePostedEpoch := m.timePostedEpoch }
  let message := match matched with
    | none => db.1.message ++ [row]
    | some _ => overwrite MessageRow.messageId row db.1.message
  return (← commit { db.1 with message }, row.entity)

def findById (db : Db) (id : Int) : Option Message :=
  (db.1.message.find? (·.messageId = id)).map MessageRow.entity

def findAll (db : Db) : List Message := db.1.message.map MessageRow.entity

def findAllByPostedBy (db : Db) (postedBy : Int) : List Message :=
  (db.1.message.filter (·.postedBy = some postedBy)).map MessageRow.entity

def deleteById (db : Db) (id : Int) : Throws Db :=
  if id ∈ db.1.message.map (·.messageId) then
    commit { db.1 with message := db.1.message.filter (·.messageId ≠ id) }
  else .error .emptyResultDataAccess

end MessageRepository

end Windborne.Spring
