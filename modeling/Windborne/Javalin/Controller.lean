import Windborne.Javalin.Accounts
import Windborne.Javalin.MessageStore
import Windborne.Spring.Service

/-!
# Handlers of the Javalin service

The eight handlers with the exceptions that they throw, catch and let through. `ctx.json`
throws for null. What the database makes of the text of an `INSERT` into the account table is a
parameter.
-/

namespace Windborne.Javalin

open Library
open Spring (JavaString javaString HttpStatus)

inductive ServiceRequest where
  | accounts (r : AccountRequest)
  | messages (r : Request)

/-- The tables; usernames are unique. -/
structure Store where
  accounts : List Account
  messages : MessageTable
  usernames : (accounts.filterMap Account.username).Nodup

/-- `Integer.parseInt`, the generated key that an `INSERT` returns, or none when it fails, and the
tables after it, and the next key of the message table. -/
structure Platform where
  parseInt : JavaString → Option Int
  executeUpdate : Store → JavaString → Option Int × Store
  messageKey : Int

inductive Thrown where
  | nullPointer
  | numberFormat
  deriving DecidableEq

/-- What a response contains. -/
inductive Result where
  | account (a : Account)
  | message (m : Message)
  | messages (ms : List Message)
  | text (t : JavaString)

/-- The response of a request that has not thrown. -/
structure Context where
  status : HttpStatus
  result : Option Result

abbrev Throws := Except Thrown

namespace Context

/-- `ctx.json(x).status(200)` -/
def json (x : Option Result) : Throws Context :=
  match x with
  | none => throw .nullPointer
  | some x => return ⟨.ok, some x⟩

/-- `ctx.status(code)` -/
def bare (status : HttpStatus) : Context := ⟨status, none⟩

/-- An empty text with status 200. -/
def blank : Context := ⟨.ok, some (.text [])⟩

end Context

namespace SocialMediaController

open Context

/-! ## Accounts -/

/-- An exception of a service. -/
def passOn {α : Type} : Except Failure α → Throws α
  | .ok a => .ok a
  | .error .nullPointer => .error .nullPointer

def registerUserHandler (env : Platform) (s : Store) (body : Option Account) :
    Throws (Context × Store) := do
  match ← passOn (addAccount (fun u => getAccountByUsername s.accounts u) body) with
  | none => return (bare .badRequest, s)
  | some a =>
    match env.executeUpdate s (insertAccountSql a) with
    | (none, s) => return (bare .badRequest, s)
    | (some key, s) => return (← json (some (.account { a with accountId := key })), s)

def loginHandler (s : Store) (body : Option Account) : Throws (Context × Store) := do
  let some account := body | throw .nullPointer
  match ← passOn (verifyAccount s.accounts account.username account.password) with
  | none => return (bare .unauthorized, s)
  | some a => return (← json (some (.account a)), s)

/-! ## Messages -/

variable (env : Environment) (key : Int) (s : MessageTable)

def parseInt (text : JavaString) : Throws Int :=
  match env.parseInt text with
  | none => throw .numberFormat
  | some id => return id

def newMessageHandler (body : Option Message) : Throws (Context × MessageTable) := do
  match s.addMessage env key body with
  | (none, s) => return (bare .badRequest, s)
  | (some newMessage, s) => return (← json (some (.message newMessage)), s)

def getAllMessagesHandler : Throws (Context × MessageTable) := do
  return (← json (some (.messages s.rows)), s)

def getMessageByIdHandler (messageId : JavaString) : Throws (Context × MessageTable) :=
  tryCatch (do
      let id ← parseInt env messageId
      return (← json ((getMessageById s.rows id).map .message), s))
    fun
      | .numberFormat | .nullPointer => return (blank, s)

def deleteMessageByIdHandler (messageId : JavaString) : Throws (Context × MessageTable) :=
  tryCatch (do
      let id ← parseInt env messageId
      match s.deleteMessageById id with
      | (none, s) => return (blank, s)
      | (some m, s) => return (← json (some (.message m)), s))
    fun
      | .numberFormat => return (blank, s)
      | .nullPointer => throw .nullPointer

def updateMessageGivenMessageIdHandler (messageId : JavaString) (body : Option Message) :
    Throws (Context × MessageTable) := do
  let some temp := body | throw .nullPointer
  match s.updateMessageById env messageId temp.messageText with
  | (none, s) => return (bare .badRequest, s)
  | (some newMessage, s) => return (← json (some (.message newMessage)), s)

def getAllMessagesFromUserAccountIdHandler (accountId : JavaString) :
    Throws (Context × MessageTable) := do
  return (← json ((s.getMessagesFromUserId env accountId).map .messages), s)

def handleMessages : Request → Throws (Context × MessageTable)
  | .newMessage body => newMessageHandler env key s body
  | .getAllMessages => getAllMessagesHandler s
  | .getMessageById messageId => getMessageByIdHandler env s messageId
  | .deleteMessageById messageId => deleteMessageByIdHandler env s messageId
  | .updateMessageGivenMessageId messageId body =>
    updateMessageGivenMessageIdHandler env s messageId body
  | .getAllMessagesFromUserAccountId accountId =>
    getAllMessagesFromUserAccountIdHandler env s accountId

def handle (env : Platform) (s : Store) : ServiceRequest → Throws (Context × Store)
  | .accounts (.registerUser body) => registerUserHandler env s body
  | .accounts (.login body) => loginHandler s body
  | .messages r => do
    let (ctx, messages) ← handleMessages ⟨s.accounts.map Account.accountId, env.parseInt⟩
      env.messageKey s.messages r
    return (ctx, { s with messages })

end SocialMediaController

/-! ## The message store -/

/-- The context of a response; there is none after an exception. -/
def Response.context : Response → Option Context
  | .message m => some ⟨.ok, some (.message m)⟩
  | .messages ms => some ⟨.ok, some (.messages ms)⟩
  | .empty => some .blank
  | .badRequest => some (.bare .badRequest)
  | .serverError => none

/-- The handlers answer as `MessageTable.serve` says, and the only exception that leaves one of
them is a `NullPointerException`. -/
theorem handleMessages_eq (env : Environment) (key : Int) (s : MessageTable) (r : Request) :
    SocialMediaController.handleMessages env key s r =
      match (s.serve env key r).1.context with
      | none => .error .nullPointer
      | some ctx => .ok (ctx, (s.serve env key r).2) := by
  cases r with
  | newMessage body =>
    simp only [SocialMediaController.handleMessages, SocialMediaController.newMessageHandler,
      MessageTable.serve]
    rcases s.addMessage env key body with ⟨_ | m, t⟩
    · rfl
    · rfl
  | getAllMessages => rfl
  | getMessageById messageId =>
    simp only [SocialMediaController.handleMessages, SocialMediaController.getMessageByIdHandler,
      SocialMediaController.parseInt, MessageTable.serve]
    cases env.parseInt messageId with
    | none => rfl
    | some id =>
      simp only [pure_bind]
      cases getMessageById s.rows id with
      | none => rfl
      | some m => rfl
  | deleteMessageById messageId =>
    simp only [SocialMediaController.handleMessages,
      SocialMediaController.deleteMessageByIdHandler, SocialMediaController.parseInt,
      MessageTable.serve]
    cases env.parseInt messageId with
    | none => rfl
    | some id =>
      simp only [pure_bind]
      rcases s.deleteMessageById id with ⟨_ | m, t⟩
      · rfl
      · rfl
  | updateMessageGivenMessageId messageId body =>
    cases body with
    | none => rfl
    | some temp =>
      simp only [SocialMediaController.handleMessages,
        SocialMediaController.updateMessageGivenMessageIdHandler, MessageTable.serve]
      rcases s.updateMessageById env messageId temp.messageText with ⟨_ | m, t⟩
      · rfl
      · rfl
  | getAllMessagesFromUserAccountId accountId =>
    simp only [SocialMediaController.handleMessages,
      SocialMediaController.getAllMessagesFromUserAccountIdHandler, MessageTable.serve]
    cases s.getMessagesFromUserId env accountId with
    | none => rfl
    | some ms => rfl

end Windborne.Javalin
