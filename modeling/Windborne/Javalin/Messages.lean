import Mathlib.Logic.Function.Basic
import Windborne.Library.Linearizability
import Windborne.Spring.Store

/-!
# Concurrent message requests of the Javalin service

A request is a process whose steps are the SQL statements of its DAO calls, together with
what the handler and the service do before the next statement. The history has the call of
a request at its first step and its return at its last one. `Atomic` says what the requests
mean one after the other, as operations on a map from ids to messages. A method of `MessageDAO`
is as many steps as it has statements: its field `conn`, which all requests share, is not modelled.
-/

namespace Windborne.Javalin

open Library
open Spring (JavaString javaString)

structure Message where
  messageId : Int
  postedBy : Int
  messageText : Option JavaString
  timePostedEpoch : Int
  deriving DecidableEq

/-- The ids of the accounts, which no message request changes, and `Integer.parseInt`. -/
structure Environment where
  accounts : List Int
  parseInt : JavaString → Option Int

/-! ## Requests -/

/-- The path parameter and the body of a request. A body may be the JSON `null`. -/
inductive Request where
  | newMessage (body : Option Message)
  | getAllMessages
  | getMessageById (messageId : JavaString)
  | deleteMessageById (messageId : JavaString)
  | updateMessageGivenMessageId (messageId : JavaString) (body : Option Message)
  | getAllMessagesFromUserAccountId (accountId : JavaString)

inductive Response where
  | message (m : Message)
  | messages (ms : List Message)
  | empty
  | badRequest
  | serverError
  deriving DecidableEq

/-- The checks of `addMessage` before `userExists`. -/
def acceptsNew : Option Message → Option Message
  | none => none
  | some m =>
    match m.messageText with
    | none => none
    | some text => if text = [] then none else if text.length ≥ 255 then none else some m

/-- The check of `updateMessageById` of the new text. -/
def acceptsText : Option JavaString → Option JavaString
  | none => none
  | some text => if text.length > 255 ∨ text.length = 0 then none else some text

/-! ## `MessageDAO` -/

/-- `execute` tells that a query has a result, not that the result has a row. -/
def userExists (_ : Environment) (_ : Message) : Bool := true

def getMessageById (rows : List Message) (id : Int) : Option Message :=
  rows.find? (·.messageId = id)

def removeMessageById (rows : List Message) (id : Int) : List Message :=
  rows.filter (·.messageId ≠ id)

/-- The rows after the `UPDATE`. -/
def updateMessageTextById (rows : List Message) (id : Int) (newText : JavaString) :
    List Message :=
  rows.map fun m => if m.messageId = id then { m with messageText := newText } else m

def selectAllMessagesByUserId (rows : List Message) (userId : Int) : List Message :=
  rows.filter (·.postedBy = userId)

/-! ## States and steps -/

/-- The next statement of a request. `matched` is whether the `UPDATE` has found a row, which
the code does not look at. -/
inductive Pc where
  | start
  | insert (m : Message)
  | delete (id : Int) (m : Message)
  | update (id : Int) (newText : JavaString)
  | reselect (id : Int) (newText : JavaString) (matched : Bool)
  | done (response : Response)

variable {P : Type} [DecidableEq P]

structure State (P : Type) where
  rows : List Message
  used : List Int
  pc : P → Pc
  history : List (Event P Response)

/-- A process takes its next step; `key` is the next generated key. -/
structure Action (P : Type) where
  process : P
  key : Int

def State.goto (s : State P) (p : P) (pc : Pc) : State P :=
  { s with pc := Function.update s.pc p pc }

def State.call (s : State P) (p : P) : State P := { s with history := s.history ++ [.call p] }

def State.finish (s : State P) (p : P) (r : Response) : State P :=
  { s with pc := Function.update s.pc p (.done r), history := s.history ++ [.ret p r] }

/-- The first step of a request: the checks, and the first statement unless they fail. -/
def begin_ (env : Environment) (s : State P) (p : P) : Request → State P
  | .newMessage body =>
    match acceptsNew body with
    | none => s.finish p .badRequest
    | some m => if userExists env m then s.goto p (.insert m) else s.finish p .badRequest
  | .getAllMessages => s.finish p (.messages s.rows)
  | .getMessageById messageId =>
    match (env.parseInt messageId).bind (getMessageById s.rows) with
    | none => s.finish p .empty
    | some m => s.finish p (.message m)
  | .deleteMessageById messageId =>
    match env.parseInt messageId with
    | none => s.finish p .empty
    | some id =>
      match getMessageById s.rows id with
      | none => s.finish p .empty
      | some m => s.goto p (.delete id m)
  | .updateMessageGivenMessageId messageId body =>
    match body with
    | none => s.finish p .serverError
    | some temp =>
      match acceptsText temp.messageText with
      | none => s.finish p .badRequest
      | some newText =>
        match env.parseInt messageId with
        | none => s.finish p .badRequest
        | some id =>
          match getMessageById s.rows id with
          | none => s.finish p .badRequest
          | some _ => s.goto p (.update id newText)
  | .getAllMessagesFromUserAccountId accountId =>
    match env.parseInt accountId with
    | none => s.finish p .serverError
    | some id => s.finish p (.messages (selectAllMessagesByUserId s.rows id))

/-- The `INSERT`, which fails for a poster without an account. -/
def insertMessage (env : Environment) (s : State P) (a : Action P) (m : Message) :
    Option (State P) :=
  if m.postedBy ∈ env.accounts then
    if a.key ∈ s.used then none
    else
      let createdMessage := { m with messageId := a.key }
      some { s.finish a.process (.message createdMessage) with
        rows := s.rows ++ [createdMessage]
        used := a.key :: s.used }
  else some (s.finish a.process .badRequest)

/-- The next statement of a process. -/
def step (env : Environment) (requests : P → Request) (s : State P) (a : Action P) :
    Option (State P) :=
  match s.pc a.process with
  | .start => some (begin_ env (s.call a.process) a.process (requests a.process))
  | .insert m => insertMessage env s a m
  | .delete id m =>
    some { s.finish a.process (.message m) with rows := removeMessageById s.rows id }
  | .update id newText =>
    some { s.goto a.process (.reselect id newText (getMessageById s.rows id).isSome) with
      rows := updateMessageTextById s.rows id newText }
  | .reselect id _ _ =>
    match getMessageById s.rows id with
    | none => some (s.finish a.process .badRequest)
    | some m => some (s.finish a.process (.message m))
  | .done _ => none

def Step (env : Environment) (requests : P → Request) (s : State P) (a : Action P)
    (t : State P) : Prop := step env requests s a = some t

/-- Messages with different ids, all of them used, and no request yet. -/
structure Initial (s : State P) : Prop where
  ids : (s.rows.map Message.messageId).Nodup
  used : ∀ m ∈ s.rows, m.messageId ∈ s.used
  pc : ∀ p, s.pc p = .start
  history : s.history = []

/-! ## What the requests mean -/

/-- The stored messages by their ids, and the ids that have been given out. -/
structure Board where
  messages : Int → Option Message
  used : List Int

def State.board (s : State P) : Board where
  messages := getMessageById s.rows
  used := s.used

/-- The list has the stored messages that meet the condition, each once. -/
def Lists (b : Board) (keep : Message → Prop) (ms : List Message) : Prop :=
  (∀ m, m ∈ ms ↔ b.messages m.messageId = some m ∧ keep m) ∧ (ms.map Message.messageId).Nodup

/-- The message of a body that can be stored. -/
def storable (env : Environment) (body : Option Message) : Option Message :=
  (acceptsNew body).filter fun m => m.postedBy ∈ env.accounts

/-- **The atomic operations.** A request answers `r` and turns the board `b` into `c`. -/
def Atomic (env : Environment) (b : Board) : Request → Response → Board → Prop
  | .newMessage body, r, c =>
    match storable env body with
    | none => r = .badRequest ∧ c = b
    | some m =>
      ∃ id, id ∉ b.used ∧ r = .message { m with messageId := id } ∧
        c = ⟨Function.update b.messages id (some { m with messageId := id }), id :: b.used⟩
  | .getAllMessages, r, c => (∃ ms, r = .messages ms ∧ Lists b (fun _ => True) ms) ∧ c = b
  | .getMessageById messageId, r, c =>
    match (env.parseInt messageId).bind b.messages with
    | none => r = .empty ∧ c = b
    | some m => r = .message m ∧ c = b
  | .deleteMessageById messageId, r, c =>
    match (env.parseInt messageId).bind b.messages with
    | none => r = .empty ∧ c = b
    | some m => r = .message m ∧ c = ⟨Function.update b.messages m.messageId none, b.used⟩
  | .updateMessageGivenMessageId _ none, r, c => r = .serverError ∧ c = b
  | .updateMessageGivenMessageId messageId (some temp), r, c =>
    match acceptsText temp.messageText, (env.parseInt messageId).bind b.messages with
    | some newText, some m =>
      r = .message { m with messageText := newText } ∧
        c = ⟨Function.update b.messages m.messageId (some { m with messageText := newText }),
          b.used⟩
    | _, _ => r = .badRequest ∧ c = b
  | .getAllMessagesFromUserAccountId accountId, r, c =>
    match env.parseInt accountId with
    | none => r = .serverError ∧ c = b
    | some id => (∃ ms, r = .messages ms ∧ Lists b (fun m => m.postedBy = id) ms) ∧ c = b

/-- What a statement should find: a `DELETE` the row as the request has read it, and the last
`SELECT` of a request whose `UPDATE` has found a row the text of the request. -/
def FindsOwn (rows : List Message) : Pc → Prop
  | .delete id m => getMessageById rows id = some m
  | .reselect id newText true => ∃ m ∈ getMessageById rows id, m.messageText = some newText
  | _ => True

instance (rows : List Message) : DecidablePred (FindsOwn rows)
  | .delete id m => inferInstanceAs (Decidable (getMessageById rows id = some m))
  | .reselect id newText true =>
    inferInstanceAs (Decidable (∃ m ∈ getMessageById rows id, m.messageText = some newText))
  | .reselect _ _ false | .start | .insert _ | .update _ _ | .done _ => isTrue trivial

/-- The condition on a step. -/
def Undisturbed (s : State P) (a : Action P) : Prop := FindsOwn s.rows (s.pc a.process)

instance (s : State P) (a : Action P) : Decidable (Undisturbed s a) :=
  inferInstanceAs (Decidable (FindsOwn _ _))

end Windborne.Javalin
