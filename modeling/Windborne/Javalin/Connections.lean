import Windborne.Javalin.Controller

/-!
# Open connections of the Javalin service

The methods of `MessageDAO` and `AccountDAO` as sequences of JDBC calls, each of which may
throw an `SQLException`. What a row holds plays no part: a method answers whether the
reference that it returns is not null. Only four of the methods close their connection, at
the end of the `try` block, so an exception before that leaves it open too.
-/

namespace Windborne.Javalin

open Library
open Spring (JavaString javaString)

/-- How a JDBC call goes; `row` is for `ResultSet.next`. -/
inductive Outcome where
  | ok
  | row
  | sqlException
  deriving DecidableEq

inductive JdbcException where
  | sql
  | nullPointer
  deriving DecidableEq

/-- The open connections and the outcomes of the calls to come; calls beyond them go well and
find no row. -/
structure Jdbc where
  opened : Nat
  outcomes : List Outcome
  deriving DecidableEq

abbrev JdbcM := ExceptT JdbcException (StateM Jdbc)

namespace Jdbc

/-- The next call throws. -/
def Fails (outcomes : List Outcome) : Prop := outcomes.head? = some .sqlException

instance (outcomes : List Outcome) : Decidable (Fails outcomes) :=
  inferInstanceAs (Decidable (_ = _))

/-- None of the next `n` calls throws. -/
def Clean (outcomes : List Outcome) (n : Nat) : Prop := .sqlException ∉ outcomes.take n

/-! ## JDBC -/

/-- A statement that is prepared and executed, or `ResultSet.next` with the reading of the row,
and whether there is one. -/
def sqlCall : JdbcM Bool := fun s =>
  if Fails s.outcomes then (.error .sql, { s with outcomes := s.outcomes.tail })
  else (.ok (s.outcomes.head? = some .row), { s with outcomes := s.outcomes.tail })

/-- `ConnectionUtil.getConnection`, and the first use of the reference that it returns: it
catches the exception and returns null. -/
def getConnection : JdbcM Unit := fun s =>
  if Fails s.outcomes then (.error .nullPointer, { s with outcomes := s.outcomes.tail })
  else (.ok (), { opened := s.opened + 1, outcomes := s.outcomes.tail })

/-- `conn.close` -/
def close : JdbcM Unit := fun s =>
  if Fails s.outcomes then (.error .sql, { s with outcomes := s.outcomes.tail })
  else (.ok (), { opened := s.opened - 1, outcomes := s.outcomes.tail })

/-- `catch(SQLException e)`, and the reference that is returned after it. -/
def catchSql (fallback : Bool) (body : JdbcM Bool) : JdbcM Bool := fun s =>
  match body s with
  | (.error .sql, s) => (.ok fallback, s)
  | result => result

/-- `while(rs.next())`; each round uses up one outcome. -/
def readRows : Nat → JdbcM Unit
  | 0 => return ()
  | n + 1 => do
    if ← sqlCall then readRows n else return ()

/-- A query for all rows. -/
def readAll : JdbcM Unit := fun s => readRows (s.outcomes.length + 1) s

/-! ## The methods -/

/-- A query for one row. -/
def findRow : JdbcM Bool :=
  catchSql false do
    getConnection
    let _ ← sqlCall
    sqlCall

/-- A query for all rows; the list is returned after an exception too. -/
def findRows : JdbcM Bool :=
  catchSql true do
    getConnection
    let _ ← sqlCall
    readAll
    return true

/-- An `INSERT` that reads the generated key. The object is created before `close`, and is
returned when `close` throws too. -/
def insertRow : JdbcM Bool :=
  catchSql false do
    getConnection
    let _ ← sqlCall
    let created ← sqlCall
    catchSql created do
      close
      return created

/-- A `DELETE`. -/
def deleteRow : JdbcM Bool :=
  catchSql false do
    getConnection
    let _ ← sqlCall
    close
    return false

/-- `execute` tells that there is a result set, which is not read. -/
def userExists : JdbcM Bool :=
  catchSql false do
    getConnection
    let _ ← sqlCall
    return true

/-- The `UPDATE`, and `getMessageById` for its result. -/
def updateMessageTextById : JdbcM Bool :=
  catchSql false do
    getConnection
    let _ ← sqlCall
    findRow

end Jdbc

/-- The methods of `MessageDAO` and `AccountDAO`. -/
inductive DaoMethod where
  | insertMessage
  | removeMessageById
  | userExists
  | getMessageById
  | getAllMessages
  | selectAllMessagesByUserId
  | updateMessageTextById
  | insertAccount
  | removeAccount
  | getAccountById
  | getAccountByUsername
  | getAllAccounts

namespace DaoMethod

open Jdbc

def run : DaoMethod → JdbcM Bool
  | insertMessage | insertAccount => insertRow
  | removeMessageById | removeAccount => deleteRow
  | userExists => Jdbc.userExists
  | getMessageById | getAccountById | getAccountByUsername => findRow
  | getAllMessages | selectAllMessagesByUserId | getAllAccounts => findRows
  | updateMessageTextById => Jdbc.updateMessageTextById

/-- The number of calls in the `try` block of a method that ends with `conn.close()`. -/
def closes : DaoMethod → Option Nat
  | insertMessage | insertAccount => some 4
  | removeMessageById | removeAccount => some 3
  | _ => none

end DaoMethod

/-! ## Requests -/

namespace Jdbc

/-- A method call on a reference. -/
def nonNull (x : Option JavaString) : JdbcM JavaString :=
  match x with
  | some text => return text
  | none => throw .nullPointer

def addAccount : Option Account → JdbcM Bool
  | none => return false
  | some a => do
    let username ← nonNull a.username
    if username = [] then return false
    else
      let password ← nonNull a.password
      if password.length < 4 then return false
      else if ← DaoMethod.getAccountByUsername.run then return false
      else DaoMethod.insertAccount.run

def addMessage (body : Option Message) : JdbcM Bool :=
  match acceptsNew body with
  | none => return false
  | some _ => do
    if ← DaoMethod.userExists.run then DaoMethod.insertMessage.run else return false

def deleteMessageById : JdbcM Bool := do
  if ← DaoMethod.getMessageById.run then
    let _ ← DaoMethod.removeMessageById.run
    return true
  else return false

def updateMessageById (parseInt : JavaString → Option Int) (htmlId : JavaString)
    (newText : Option JavaString) : JdbcM Bool :=
  match acceptsText newText, parseInt htmlId with
  | some _, some _ => do
    if ← DaoMethod.getMessageById.run then DaoMethod.updateMessageTextById.run else return false
  | _, _ => return false

/-- The handlers: what follows the services makes no calls. -/
def serve (parseInt : JavaString → Option Int) : ServiceRequest → JdbcM Bool
  | .accounts (.registerUser body) => addAccount body
  | .accounts (.login none) => throw .nullPointer
  | .accounts (.login (some _)) => DaoMethod.getAccountByUsername.run
  | .messages (.newMessage body) => addMessage body
  | .messages .getAllMessages => DaoMethod.getAllMessages.run
  | .messages (.getMessageById messageId) =>
    match parseInt messageId with
    | none => return false
    | some _ => DaoMethod.getMessageById.run
  | .messages (.deleteMessageById messageId) =>
    match parseInt messageId with
    | none => return false
    | some _ => deleteMessageById
  | .messages (.updateMessageGivenMessageId _ none) => throw .nullPointer
  | .messages (.updateMessageGivenMessageId messageId (some temp)) =>
    updateMessageById parseInt messageId temp.messageText
  | .messages (.getAllMessagesFromUserAccountId accountId) =>
    match parseInt accountId with
    | none => return false
    | some _ => DaoMethod.selectAllMessagesByUserId.run

/-- The request passes the checks that are made before the first query. -/
def Reaches (parseInt : JavaString → Option Int) : ServiceRequest → Prop
  | .accounts (.registerUser body) => ∃ a ∈ body, Acceptable a
  | .accounts (.login body) => body ≠ none
  | .messages (.newMessage body) => acceptsNew body ≠ none
  | .messages .getAllMessages => True
  | .messages (.getMessageById messageId) => parseInt messageId ≠ none
  | .messages (.deleteMessageById messageId) => parseInt messageId ≠ none
  | .messages (.updateMessageGivenMessageId messageId body) =>
    ∃ temp ∈ body, acceptsText temp.messageText ≠ none ∧ parseInt messageId ≠ none
  | .messages (.getAllMessagesFromUserAccountId accountId) => parseInt accountId ≠ none

/-- A request, with the outcomes of its JDBC calls: the open connections before and after. -/
def Step (parseInt : JavaString → Option Int) (n : Nat) (a : ServiceRequest × List Outcome)
    (n' : Nat) : Prop := n' = (serve parseInt a.1 ⟨n, a.2⟩).2.opened

/-- The request gets no connection: it is rejected before its first query, or the connection
for that query fails. -/
def Unconnected (parseInt : JavaString → Option Int) (a : ServiceRequest × List Outcome) : Prop :=
  Reaches parseInt a.1 → Fails a.2

/-! ## Programs that close no connection of others -/

/-- The program leaves at least as many connections open as it has found. -/
def Keeps {α : Type} (x : JdbcM α) : Prop := ∀ s, s.opened ≤ (x s).2.opened

variable {α β : Type} {s : Jdbc}

theorem bind_run (x : JdbcM α) (f : α → JdbcM β) (s : Jdbc) :
    (x >>= f) s = match x s with
      | (.ok a, s') => f a s'
      | (.error e, s') => (.error e, s') := by
  have hBind : (x >>= f) s = ExceptT.bindCont f (x s).1 (x s).2 := rfl
  rw [hBind]
  rcases x s with ⟨_ | a, s'⟩
  · rfl
  · rfl

theorem keeps_pure (a : α) : Keeps (pure a) := fun s => Nat.le_refl s.opened

theorem Keeps.bind {x : JdbcM α} {f : α → JdbcM β} (hx : Keeps x) (hf : ∀ a, Keeps (f a)) :
    Keeps (x >>= f) := by
  intro s
  have hFirst := hx s
  rw [bind_run]
  cases hRun : x s with
  | mk result s' =>
    rw [hRun] at hFirst
    cases result with
    | error e => exact hFirst
    | ok a => exact Nat.le_trans hFirst (hf a s')

theorem catchSql_state (fallback : Bool) (body : JdbcM Bool) (s : Jdbc) :
    (catchSql fallback body s).2 = (body s).2 := by
  unfold catchSql
  split
  · rename_i hRun
    rw [hRun]
  · rfl

theorem Keeps.catchSql {body : JdbcM Bool} (h : Keeps body) (fallback : Bool) :
    Keeps (catchSql fallback body) := by
  intro s
  rw [catchSql_state]
  exact h s

theorem keeps_sqlCall : Keeps sqlCall := by
  intro s
  unfold sqlCall
  split
  · exact Nat.le_refl _
  · exact Nat.le_refl _

theorem keeps_getConnection : Keeps getConnection := by
  intro s
  unfold getConnection
  split
  · exact Nat.le_refl _
  · exact Nat.le_succ _

theorem keeps_readRows (n : Nat) : Keeps (readRows n) := by
  induction n with
  | zero => exact keeps_pure ()
  | succ n ih =>
    refine keeps_sqlCall.bind fun more => ?_
    cases more with
    | true => exact ih
    | false => exact keeps_pure ()

theorem keeps_findRow : Keeps findRow :=
  (keeps_getConnection.bind fun _ => keeps_sqlCall.bind fun _ => keeps_sqlCall).catchSql _

/-! ## The methods -/

/-- A method whose connection fails. -/
theorem unconnected_run {next : Unit → JdbcM Bool} {fallback : Bool} (h : Fails s.outcomes) :
    catchSql fallback (getConnection >>= next) s =
      (.error .nullPointer, { s with outcomes := s.outcomes.tail }) := by
  have hRun : (getConnection >>= next) s =
      (.error .nullPointer, { s with outcomes := s.outcomes.tail }) := by
    rw [bind_run, getConnection, if_pos h]
  rw [catchSql, hRun]

theorem connected_run {next : Unit → JdbcM Bool} {fallback : Bool} (h : ¬Fails s.outcomes) :
    (catchSql fallback (getConnection >>= next) s).2 =
      (next () { opened := s.opened + 1, outcomes := s.outcomes.tail }).2 := by
  rw [catchSql_state, bind_run, getConnection, if_neg h]

/-- Every method first takes a connection, and what follows closes no other one. Where no
`close` follows, it does not close this one either. -/
theorem run_eq (m : DaoMethod) :
    ∃ fallback next, m.run = catchSql fallback (getConnection >>= next) ∧
      (m.closes = none → ∀ u, Keeps (next u)) := by
  have hAll : Keeps (do
      let _ ← sqlCall
      readAll
      return true) :=
    keeps_sqlCall.bind fun _ => Keeps.bind (fun s => keeps_readRows _ s) fun _ => keeps_pure _
  have hOne : Keeps (do
      let _ ← sqlCall
      sqlCall) := keeps_sqlCall.bind fun _ => keeps_sqlCall
  cases m with
  | insertMessage | insertAccount | removeMessageById | removeAccount => exact ⟨_, _, rfl, nofun⟩
  | userExists => exact ⟨_, _, rfl, fun _ _ => keeps_sqlCall.bind fun _ => keeps_pure _⟩
  | getMessageById | getAccountById | getAccountByUsername => exact ⟨_, _, rfl, fun _ _ => hOne⟩
  | getAllMessages | selectAllMessagesByUserId | getAllAccounts =>
    exact ⟨_, _, rfl, fun _ _ => hAll⟩
  | updateMessageTextById =>
    exact ⟨_, _, rfl, fun _ _ => keeps_sqlCall.bind fun _ => keeps_findRow⟩

theorem clean_succ {outcomes : List Outcome} {n : Nat} :
    Clean outcomes (n + 1) ↔ ¬Fails outcomes ∧ Clean outcomes.tail n := by
  cases outcomes with
  | nil => simp [Clean, Fails]
  | cons o outcomes =>
    simp only [Clean, Fails, List.take_succ_cons, List.mem_cons, not_or, List.head?_cons,
      Option.some.injEq, List.tail_cons]
    rw [eq_comm]

theorem clean_zero (outcomes : List Outcome) : Clean outcomes 0 := by simp [Clean]

theorem sqlCall_bind (f : Bool → JdbcM β) (s : Jdbc) :
    (sqlCall >>= f) s =
      if Fails s.outcomes then (.error .sql, { s with outcomes := s.outcomes.tail })
      else f (s.outcomes.head? = some .row) { s with outcomes := s.outcomes.tail } := by
  rw [bind_run, sqlCall]
  split_ifs
  · rfl
  · rfl

/-- A `close` at the end, which closes the one connection of the method. -/
theorem close_bind (created : Bool) (n : Nat) (outcomes : List Outcome) :
    (close >>= fun _ => (pure created : JdbcM Bool)) ⟨n + 1, outcomes⟩ =
      if Fails outcomes then (.error .sql, ⟨n + 1, outcomes.tail⟩)
      else (.ok created, ⟨n, outcomes.tail⟩) := by
  rw [bind_run, close]
  split_ifs
  · rfl
  · rfl

/-- A method with a `close` closes its connection exactly when no call throws. -/
theorem closing_run (m : DaoMethod) {k : Nat} (hCloses : m.closes = some k)
    (h : ¬Fails s.outcomes) :
    (Clean s.outcomes k ∧ (m.run s).2.opened = s.opened) ∨
      ¬Clean s.outcomes k ∧ (m.run s).2.opened = s.opened + 1 := by
  have hInsert : (Clean s.outcomes 4 ∧ (insertRow s).2.opened = s.opened) ∨
      ¬Clean s.outcomes 4 ∧ (insertRow s).2.opened = s.opened + 1 := by
    unfold insertRow
    rw [connected_run h, sqlCall_bind]
    simp only [clean_succ, clean_zero, h, not_false_eq_true, true_and, and_true]
    split_ifs with hExecute
    · simp [hExecute]
    rw [sqlCall_bind]
    split_ifs with hNext
    · simp [hNext]
    rw [catchSql_state, close_bind]
    split_ifs with hClose
    · simp [hClose]
    · simp [hExecute, hNext, hClose]
  have hDelete : (Clean s.outcomes 3 ∧ (deleteRow s).2.opened = s.opened) ∨
      ¬Clean s.outcomes 3 ∧ (deleteRow s).2.opened = s.opened + 1 := by
    unfold deleteRow
    rw [connected_run h, sqlCall_bind]
    simp only [clean_succ, clean_zero, h, not_false_eq_true, true_and, and_true]
    split_ifs with hExecute
    · simp [hExecute]
    rw [close_bind]
    split_ifs with hClose
    · simp [hClose]
    · simp [hExecute, hClose]
  cases m with
  | insertMessage | insertAccount =>
    cases hCloses
    exact hInsert
  | removeMessageById | removeAccount =>
    cases hCloses
    exact hDelete
  | userExists | getMessageById | getAllMessages | selectAllMessagesByUserId
  | updateMessageTextById | getAccountById | getAccountByUsername | getAllAccounts => cases hCloses

/-- A method without a `close` leaves its connection open. -/
theorem leaking_run (m : DaoMethod) (hCloses : m.closes = none) (h : ¬Fails s.outcomes) :
    s.opened < (m.run s).2.opened := by
  obtain ⟨fallback, next, hRun, hNext⟩ := run_eq m
  rw [hRun, connected_run h]
  exact hNext hCloses () ⟨s.opened + 1, s.outcomes.tail⟩

theorem failing_run (m : DaoMethod) (h : Fails s.outcomes) :
    m.run s = (.error .nullPointer, { s with outcomes := s.outcomes.tail }) := by
  obtain ⟨fallback, next, hRun, -⟩ := run_eq m
  rw [hRun, unconnected_run h]

theorem keeps_run (m : DaoMethod) : Keeps m.run := by
  intro s
  by_cases h : Fails s.outcomes
  · exact Nat.le_of_eq (by rw [failing_run m h])
  · cases hCloses : m.closes with
    | none => exact Nat.le_of_lt (leaking_run m hCloses h)
    | some k =>
      rcases closing_run m hCloses h with ⟨-, hSame⟩ | ⟨-, hMore⟩
      · exact Nat.le_of_eq hSame.symm
      · omega

/-- **Methods.** What a method has opened is closed when it returns exactly if it got no
connection or ends with a `close` before which nothing was thrown. -/
theorem run_closed_iff (m : DaoMethod) (s : Jdbc) :
    (m.run s).2.opened = s.opened ↔
      Fails s.outcomes ∨ ∃ k ∈ m.closes, Clean s.outcomes k := by
  by_cases h : Fails s.outcomes
  · rw [failing_run m h]
    exact ⟨fun _ => Or.inl h, fun _ => rfl⟩
  · cases hCloses : m.closes with
    | none =>
      have hMore := leaking_run m hCloses h
      simp [h, Nat.ne_of_gt hMore]
    | some k =>
      rcases closing_run m hCloses h with ⟨hClean, hSame⟩ | ⟨hNot, hMore⟩
      · simp [hSame, hClean]
      · simp [hMore, hNot, h]

/-! ## Requests -/

variable {parseInt : JavaString → Option Int}

/-- A rejected request makes no call. -/
def Rejected (x : JdbcM Bool) : Prop := ∀ s, (x s).2 = s

/-- A request that is not rejected begins with a method that leaves its connection open. -/
def Queries (x : JdbcM Bool) : Prop :=
  ∃ (m : DaoMethod) (f : Bool → JdbcM Bool), m.closes = none ∧ x = m.run >>= f ∧ ∀ b, Keeps (f b)

theorem rejected_return (b : Bool) : Rejected (return b) := fun _ => rfl

theorem rejected_throw (e : JdbcException) : Rejected (throw e) := fun _ => rfl

theorem queries_run (m : DaoMethod) (h : m.closes = none) : Queries m.run :=
  ⟨m, pure, h, (bind_pure m.run).symm, keeps_pure⟩

theorem Queries.closed_iff {x : JdbcM Bool} (h : Queries x) (s : Jdbc) :
    Keeps x ∧ ((x s).2.opened = s.opened ↔ Fails s.outcomes) := by
  obtain ⟨m, f, hCloses, rfl, hRest⟩ := h
  refine ⟨(keeps_run m).bind hRest, ?_⟩
  rw [bind_run]
  by_cases hFails : Fails s.outcomes
  · simp [failing_run m hFails, hFails]
  · have hMore := leaking_run m hCloses hFails
    cases hRun : m.run s with
    | mk result t =>
      rw [hRun] at hMore
      cases result with
      | error e => simpa [hFails] using Nat.ne_of_gt hMore
      | ok b => simpa [hFails] using Nat.ne_of_gt (Nat.lt_of_lt_of_le hMore (hRest b t))

theorem nonNull_some_bind (text : JavaString) (f : JavaString → JdbcM β) :
    nonNull (some text) >>= f = f text := pure_bind text f

theorem addAccount_rejected {body : Option Account} (h : ¬∃ a ∈ body, Acceptable a) :
    Rejected (addAccount body) := by
  cases body with
  | none => exact rejected_return false
  | some a =>
    simp only [addAccount]
    cases hUser : a.username with
    | none => exact rejected_throw .nullPointer
    | some username =>
      rw [nonNull_some_bind]
      by_cases hBlank : username = []
      · rw [if_pos hBlank]
        exact rejected_return false
      rw [if_neg hBlank]
      cases hPass : a.password with
      | none => exact rejected_throw .nullPointer
      | some password =>
        rw [nonNull_some_bind]
        by_cases hShort : password.length < 4
        · rw [if_pos hShort]
          exact rejected_return false
        · exact absurd ⟨a, rfl, username, password, hUser, hPass, hBlank, Nat.le_of_not_lt hShort⟩ h

theorem addAccount_queries {a : Account} (h : Acceptable a) : Queries (addAccount (some a)) := by
  obtain ⟨username, password, hUser, hPass, hBlank, hLong⟩ := h
  refine ⟨.getAccountByUsername,
    fun found => if found then return false else DaoMethod.insertAccount.run, rfl, ?_, ?_⟩
  · simp only [addAccount]
    rw [hUser, hPass, nonNull_some_bind, if_neg hBlank, nonNull_some_bind,
      if_neg (Nat.not_lt.mpr hLong)]
  · intro found
    cases found with
    | false => exact keeps_run .insertAccount
    | true => exact keeps_pure _

theorem deleteMessageById_queries : Queries deleteMessageById := by
  refine ⟨.getMessageById, _, rfl, rfl, ?_⟩
  intro found
  cases found with
  | false => exact keeps_pure _
  | true => exact (keeps_run .removeMessageById).bind fun _ => keeps_pure _

/-- A request either is rejected without a call or begins with a query. -/
theorem serve_cases (r : ServiceRequest) :
    (¬Reaches parseInt r ∧ Rejected (serve parseInt r)) ∨
      Reaches parseInt r ∧ Queries (serve parseInt r) := by
  cases r with
  | accounts r =>
    cases r with
    | registerUser body =>
      by_cases h : ∃ a ∈ body, Acceptable a
      · obtain ⟨a, rfl, hAcceptable⟩ := id h
        exact Or.inr ⟨h, addAccount_queries hAcceptable⟩
      · exact Or.inl ⟨h, addAccount_rejected h⟩
    | login body =>
      cases body with
      | none => exact Or.inl ⟨fun h => h rfl, rejected_throw _⟩
      | some a => exact Or.inr ⟨nofun, queries_run .getAccountByUsername rfl⟩
  | messages r =>
    cases r with
    | newMessage body =>
      simp only [serve, addMessage, Reaches]
      cases acceptsNew body with
      | none => exact Or.inl ⟨fun h => h rfl, rejected_return _⟩
      | some m =>
        refine Or.inr ⟨nofun, .userExists, _, rfl, rfl, ?_⟩
        intro found
        cases found with
        | false => exact keeps_pure _
        | true => exact keeps_run .insertMessage
    | getAllMessages => exact Or.inr ⟨trivial, queries_run .getAllMessages rfl⟩
    | getMessageById messageId =>
      simp only [serve, Reaches]
      cases parseInt messageId with
      | none => exact Or.inl ⟨fun h => h rfl, rejected_return _⟩
      | some id => exact Or.inr ⟨nofun, queries_run .getMessageById rfl⟩
    | deleteMessageById messageId =>
      simp only [serve, Reaches]
      cases parseInt messageId with
      | none => exact Or.inl ⟨fun h => h rfl, rejected_return _⟩
      | some id => exact Or.inr ⟨nofun, deleteMessageById_queries⟩
    | updateMessageGivenMessageId messageId body =>
      cases body with
      | none => exact Or.inl ⟨nofun, rejected_throw _⟩
      | some temp =>
        simp only [serve, Reaches, updateMessageById, Option.mem_some_iff, exists_eq_left']
        cases acceptsText temp.messageText with
        | none => exact Or.inl ⟨fun h => h.1 rfl, rejected_return _⟩
        | some newText =>
          cases parseInt messageId with
          | none => exact Or.inl ⟨fun h => h.2 rfl, rejected_return _⟩
          | some id =>
            refine Or.inr ⟨⟨nofun, nofun⟩, .getMessageById, _, rfl, rfl, ?_⟩
            intro found
            cases found with
            | false => exact keeps_pure _
            | true => exact keeps_run .updateMessageTextById
    | getAllMessagesFromUserAccountId accountId =>
      simp only [serve, Reaches]
      cases parseInt accountId with
      | none => exact Or.inl ⟨fun h => h rfl, rejected_return _⟩
      | some id => exact Or.inr ⟨nofun, queries_run .selectAllMessagesByUserId rfl⟩

/-- **Requests.** A request leaves no connection open exactly if it gets none. -/
theorem serve_closed_iff (r : ServiceRequest) (s : Jdbc) :
    (serve parseInt r s).2.opened = s.opened ↔ Unconnected parseInt (r, s.outcomes) := by
  rcases @serve_cases parseInt r with ⟨hNot, hRejected⟩ | ⟨hReaches, hQueries⟩
  · rw [hRejected s]
    exact ⟨fun _ h => absurd h hNot, fun _ => rfl⟩
  · rw [(hQueries.closed_iff s).2]
    exact ⟨fun hFails _ => hFails, fun h => h hReaches⟩

/-- **Connections.** A method has closed what it opened exactly if it got no connection or ends
with a `close` before which nothing was thrown. The runs that always have no connection open
between two requests are those in which no request gets a connection. -/
theorem connections_closed_iff (parseInt : JavaString → Option Int) :
    (∀ (m : DaoMethod) (s : Jdbc), (m.run s).2.opened = s.opened ↔
      Fails s.outcomes ∨ ∃ k ∈ m.closes, Clean s.outcomes k) ∧
    ∀ tr n, Run (Keeping (Step parseInt) (· = 0)) 0 tr n ↔
      Run (Guarded (Step parseInt) fun _ a => Unconnected parseInt a) 0 tr n := by
  refine ⟨run_closed_iff, fun tr n => ?_⟩
  refine Run.keeping_iff_guarded (I := (· = 0)) rfl ?_ (fun _ h => h) ?_
  · rintro _ ⟨r, outcomes⟩ _ rfl rfl hGuard
    exact (serve_closed_iff r ⟨0, outcomes⟩).mpr hGuard
  · rintro _ ⟨r, outcomes⟩ _ rfl rfl hClosed
    exact (serve_closed_iff r ⟨0, outcomes⟩).mp hClosed

/-- All calls of a `GET /messages` go well, and its connection stays open. -/
theorem getAllMessages_leaks :
    DaoMethod.getAllMessages.run ⟨0, [.ok, .ok, .ok]⟩ = (.ok true, ⟨1, []⟩) ∧
      ∀ parseInt, Run (Step parseInt) 0 [(.messages .getAllMessages, [.ok, .ok, .ok])] 1 :=
  ⟨rfl, fun _ => .single rfl⟩

end Jdbc

end Windborne.Javalin
