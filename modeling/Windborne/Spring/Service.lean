import Windborne.Spring.Store

/-!
# Services and controller of the Spring service

The handlers and what they call. The services get null as `none`; the request body of a handler
is never null. An exception that leaves a handler answers with status 500, and the failed
statement has left the database as it was.
-/

namespace Windborne.Spring

/-! ## Services -/

namespace AccountService

def persistAccount (ids : FreshIds) (db : Db) (a : Account) : Throws (Db × Account) :=
  AccountRepository.save ids db a

def register (ids : FreshIds) (db : Db) (account : Option Account) :
    Throws (Db × Option Account) := do
  let some a := account | return (db, none)
  let some username := a.username | throw .nullPointer
  if username = [] then return (db, none)
  else
    let some password := a.password | throw .nullPointer
    if password.length < 4 then return (db, none)
    else if (AccountRepository.findByUsername db username).isSome then return (db, some a)
    else
      let (db, saved) ← persistAccount ids db a
      return (db, some saved)

def login (db : Db) (account : Option Account) : Throws (Option Account) := do
  let some a := account | return none
  let some username := a.username | return none
  if username = [] then return none
  else
    let some temp := AccountRepository.findByUsername db username | return none
    let some password := temp.password | throw .nullPointer
    if some password = a.password then return some temp else return none

end AccountService

namespace MessageService

def persistMessage (ids : FreshIds) (db : Db) (m : Message) : Throws (Db × Message) :=
  MessageRepository.save ids db m

def createMessage (ids : FreshIds) (db : Db) (message : Option Message) :
    Throws (Db × Option Message) := do
  let some m := message | return (db, none)
  let some text := m.messageText | return (db, none)
  if text = [] ∨ text.length ≥ 255 then return (db, none)
  else
    let poster ← AccountRepository.findById db m.postedBy
    if poster.isNone then return (db, none)
    else
      let (db, saved) ← persistMessage ids db m
      return (db, some saved)

def getAllMessages (db : Db) : List Message := MessageRepository.findAll db

def getAllMessagesByUser (db : Db) (postedBy : Int) : List Message :=
  MessageRepository.findAllByPostedBy db postedBy

def getMessageById (db : Db) (id : Int) : Option Message := MessageRepository.findById db id

def deleteMessage (db : Db) (id : Int) : Throws (Db × Option Message) := do
  let some temp := getMessageById db id | return (db, none)
  return (← MessageRepository.deleteById db id, some temp)

def updateMessage (ids : FreshIds) (db : Db) (id : Int) (newMessage : Message) :
    Throws (Db × Option Message) := do
  let some text := newMessage.messageText | throw .nullPointer
  if text.length > 255 ∨ text = [] then return (db, none)
  else
    let some temp := MessageRepository.findById db id | return (db, none)
    let temp := { temp with messageText := some text }
    let (db, _) ← MessageRepository.save ids db temp
    return (db, some temp)

end MessageService

/-! ## Controller -/

inductive HttpStatus where
  | ok
  | badRequest
  | unauthorized
  | conflict
  | internalServerError
  deriving DecidableEq

structure ResponseEntity (α : Type) where
  status : HttpStatus
  body : Option α
  deriving DecidableEq

/-- The database after a request and the answer to it. -/
abbrev Answer (α : Type) := Db × ResponseEntity α

/-- An uncaught exception. -/
def answerOrFail {α : Type} (db : Db) : Throws (Answer α) → Answer α
  | .ok answer => answer
  | .error _ => (db, ⟨.internalServerError, none⟩)

namespace SocialMediaController

/-- `POST /register` -/
def registration (ids : FreshIds) (db : Db) (a : Account) : Answer Account :=
  answerOrFail db do
    let (db, temp) ← AccountService.register ids db (some a)
    match temp with
    | none => return (db, ⟨.badRequest, some a⟩)
    | some temp =>
      if temp.accountId = none then return (db, ⟨.conflict, some a⟩)
      else return (db, ⟨.ok, some temp⟩)

/-- `POST /messages` -/
def postNewMessage (ids : FreshIds) (db : Db) (m : Message) : Answer Message :=
  answerOrFail db do
    let (db, temp) ← MessageService.createMessage ids db (some m)
    match temp with
    | some temp => return (db, ⟨.ok, some temp⟩)
    | none => return (db, ⟨.badRequest, some m⟩)

/-- `POST /login` -/
def login (db : Db) (a : Account) : Answer Account :=
  answerOrFail db do
    match ← AccountService.login db (some a) with
    | none => return (db, ⟨.unauthorized, some a⟩)
    | some temp => return (db, ⟨.ok, some temp⟩)

/-- `GET /messages` -/
def getAllMessages (db : Db) : Answer (List Message) :=
  (db, ⟨.ok, some (MessageService.getAllMessages db)⟩)

/-- `GET /messages/{messageId}` -/
def getMessageByMessageId (db : Db) (id : Int) : Answer Message :=
  (db, ⟨.ok, MessageService.getMessageById db id⟩)

/-- `DELETE /messages/{messageId}` -/
def deleteMessageById (db : Db) (id : Int) : Answer Int :=
  answerOrFail db do
    let (db, deleted) ← MessageService.deleteMessage db id
    match deleted with
    | none => return (db, ⟨.ok, none⟩)
    | some _ => return (db, ⟨.ok, some 1⟩)

/-- `PATCH /messages/{messageId}` -/
def updateMessage (ids : FreshIds) (db : Db) (id : Int) (m : Message) : Answer Int :=
  answerOrFail db do
    let (db, updated) ← MessageService.updateMessage ids db id m
    match updated with
    | none => return (db, ⟨.badRequest, none⟩)
    | some _ => return (db, ⟨.ok, some 1⟩)

/-- `GET /accounts/{accountId}/messages` -/
def getAllMessagesByUser (db : Db) (id : Int) : Answer (List Message) :=
  (db, ⟨.ok, some (MessageService.getAllMessagesByUser db id)⟩)

end SocialMediaController

end Windborne.Spring
