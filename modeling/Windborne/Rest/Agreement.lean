import Windborne.Library.PairedRows
import Windborne.Rest.Answers

/-!
# The two services agree

Both services get the same requests, each with ids of its own. From tables with the same rows,
apart from the ids, they answer alike, and their tables go on to have the same rows. Only the
status of a rejected registration differs, and a deletion or an update returns the message in the
one service and the number of rows in the other.
-/

namespace Windborne

open Library
open Spring (JavaString HttpStatus)

/-! ## The same requests -/

structure Services where
  javalin : Javalin.Store
  spring : Spring.Db

namespace Services

/-- Ids of the same account. -/
def SameAccount (x : Services) (id id' : Int) : Prop :=
  SameKey (x.javalin.accounts.map Javalin.Account.accountId)
    (x.spring.1.account.map Spring.AccountRow.accountId) id id'

/-- Ids of the same message. -/
def SameMessage (x : Services) (id id' : Int) : Prop :=
  SameKey (x.javalin.messages.rows.map Javalin.Message.messageId)
    (x.spring.1.message.map Spring.MessageRow.messageId) id id'

/-- A request to both services: no field is null, no id is given for what is to be created, and
the strings of a registration contain no quote. -/
inductive SameRequest (parseInt : JavaString → Option Int) (x : Services) :
    Javalin.ServiceRequest → Spring.Request → Prop
  | register (username password : JavaString) (hUsername : Javalin.sql.quote ∉ username)
      (hPassword : Javalin.sql.quote ∉ password) :
      SameRequest parseInt x
        (.accounts (.registerUser (some ⟨0, some username, some password⟩)))
        (.registration ⟨none, some username, some password⟩)
  | login (username password : JavaString) :
      SameRequest parseInt x (.accounts (.login (some ⟨0, some username, some password⟩)))
        (.login ⟨none, some username, some password⟩)
  | create {poster poster' : Int} (text : JavaString) (time : Int)
      (hPoster : x.SameAccount poster poster') :
      SameRequest parseInt x (.messages (.newMessage (some ⟨0, poster, some text, time⟩)))
        (.postNewMessage ⟨none, some poster', some text, some time⟩)
  | all : SameRequest parseInt x (.messages .getAllMessages) .getAllMessages
  | get {path : JavaString} {id id' : Int} (hPath : parseInt path = some id)
      (hId : x.SameMessage id id') :
      SameRequest parseInt x (.messages (.getMessageById path)) (.getMessageByMessageId id')
  | delete {path : JavaString} {id id' : Int} (hPath : parseInt path = some id)
      (hId : x.SameMessage id id') :
      SameRequest parseInt x (.messages (.deleteMessageById path)) (.deleteMessageById id')
  | update {path : JavaString} {id id' : Int} (text : JavaString)
      (hPath : parseInt path = some id) (hId : x.SameMessage id id') :
      SameRequest parseInt x
        (.messages (.updateMessageGivenMessageId path (some ⟨0, 0, some text, 0⟩)))
        (.updateMessage id' ⟨none, none, some text, none⟩)
  | byUser {path : JavaString} {id id' : Int} (hPath : parseInt path = some id)
      (hId : x.SameAccount id id') :
      SameRequest parseInt x (.messages (.getAllMessagesFromUserAccountId path))
        (.getAllMessagesByUser id')

/-- A request to both services, the next key of the message table of the Javalin service, and the
two answers. -/
structure Exchange where
  key : Int
  request : Javalin.ServiceRequest
  request' : Spring.Request
  context : Option Javalin.Context
  response : Spring.ResponseEntity Spring.Body

structure Step (env : Javalin.Platform) (ids : Spring.FreshIds) (x : Services) (e : Exchange)
    (y : Services) : Prop where
  same : x.SameRequest env.parseInt e.request e.request'
  key : e.key ∉ x.javalin.messages.used
  javalin : Javalin.answer { env with messageKey := e.key } x.javalin e.request =
    (e.context, y.javalin)
  spring : Spring.answer ids x.spring e.request' = (y.spring, e.response)

/-! ## The same rows -/

structure SameAccountRow (a : Javalin.Account) (r : Spring.AccountRow) : Prop where
  username : a.username = some r.username
  password : a.password = r.password

structure SameMessageRow (x : Services) (m : Javalin.Message) (r : Spring.MessageRow) :
    Prop where
  postedBy : ∃ poster, r.postedBy = some poster ∧ x.SameAccount m.postedBy poster
  messageText : m.messageText = r.messageText
  timePostedEpoch : some m.timePostedEpoch = r.timePostedEpoch

/-- The tables have the same rows, apart from the ids. -/
structure Agree (x : Services) : Prop where
  accounts : List.Forall₂ SameAccountRow x.javalin.accounts x.spring.1.account
  messages : List.Forall₂ x.SameMessageRow x.javalin.messages.rows x.spring.1.message
  accountIds : (x.javalin.accounts.map Javalin.Account.accountId).Nodup
  messageIds : (x.javalin.messages.rows.map Javalin.Message.messageId).Nodup
  used : ∀ m ∈ x.javalin.messages.rows, m.messageId ∈ x.javalin.messages.used
  given : ∀ r ∈ x.spring.1.account, r.username ≠ [] ∧ r.password ≠ none

/-! ## The same answers -/

/-- An account in both answers. -/
structure AccountAlike (x : Services) (a : Javalin.Account) (b : Spring.Account) : Prop where
  accountId : ∃ id ∈ b.accountId, x.SameAccount a.accountId id
  username : a.username = b.username
  password : a.password = b.password

/-- A message in both answers. -/
structure MessageAlike (x : Services) (m : Javalin.Message) (n : Spring.Message) : Prop where
  messageId : ∃ id ∈ n.messageId, x.SameMessage m.messageId id
  postedBy : ∃ poster ∈ n.postedBy, x.SameAccount m.postedBy poster
  messageText : m.messageText = n.messageText
  timePostedEpoch : some m.timePostedEpoch = n.timePostedEpoch

/-- The status of the Spring service for a registration that both services reject. -/
structure Rejection (db : Spring.Db) (a : Spring.Account) (status : HttpStatus) : Prop where
  invalid : ¬a.Valid → status = .badRequest
  taken : a.Valid → Spring.UsernameTaken db a → status = .conflict
  tooLong : a.Valid → ¬Spring.UsernameTaken db a → status = .internalServerError

/-- The answers to one request mean the same. -/
def Alike (x : Services) (e : Exchange) (y : Services) : Prop :=
  match e.request' with
  | .registration a =>
    (∃ b c, e.context = some ⟨.ok, some (.account b)⟩ ∧ e.response = ⟨.ok, some (.account c)⟩ ∧
      y.AccountAlike b c) ∨
    y = x ∧ e.context = some (.bare .badRequest) ∧ Rejection x.spring a e.response.status
  | .login _ =>
    (∃ b c, e.context = some ⟨.ok, some (.account b)⟩ ∧ e.response = ⟨.ok, some (.account c)⟩ ∧
      y.AccountAlike b c) ∨
    e.context = some (.bare .unauthorized) ∧ e.response.status = .unauthorized
  | .postNewMessage _ =>
    (∃ m n, e.context = some ⟨.ok, some (.message m)⟩ ∧ e.response = ⟨.ok, some (.message n)⟩ ∧
      y.MessageAlike m n) ∨
    y = x ∧ e.context = some (.bare .badRequest) ∧ e.response.status = .badRequest
  | .getAllMessages | .getAllMessagesByUser _ =>
    ∃ ms ns, e.context = some ⟨.ok, some (.messages ms)⟩ ∧
      e.response = ⟨.ok, some (.messages ns)⟩ ∧ List.Forall₂ y.MessageAlike ms ns
  | .getMessageByMessageId id =>
    (∃ m n, e.context = some ⟨.ok, some (.message m)⟩ ∧ e.response = ⟨.ok, some (.message n)⟩ ∧
      n.messageId = some id ∧ y.MessageAlike m n) ∨
    y = x ∧ e.context = some .blank ∧ e.response = ⟨.ok, none⟩
  | .deleteMessageById id =>
    (∃ m, ∃ r ∈ x.spring.1.message, e.context = some ⟨.ok, some (.message m)⟩ ∧
      e.response = ⟨.ok, some (.number 1)⟩ ∧ r.messageId = id ∧ x.MessageAlike m r.entity) ∨
    y = x ∧ e.context = some .blank ∧ e.response = ⟨.ok, none⟩
  | .updateMessage id _ =>
    (∃ m, ∃ r ∈ y.spring.1.message, e.context = some ⟨.ok, some (.message m)⟩ ∧
      e.response = ⟨.ok, some (.number 1)⟩ ∧ r.messageId = id ∧ y.MessageAlike m r.entity) ∨
    y = x ∧ e.context = some (.bare .badRequest) ∧ e.response.status = .badRequest

/-- Both services answer a request, the answers mean the same, and the tables agree again. -/
def AnswersAlike (env : Javalin.Platform) (ids : Spring.FreshIds) (x : Services) (key : Int)
    (r : Javalin.ServiceRequest) (q : Spring.Request) : Prop :=
  ∃ ctx s db response, Javalin.answer env x.javalin r = (ctx, s) ∧
    Spring.answer ids x.spring q = (db, response) ∧
    Alike x ⟨key, r, q, ctx, response⟩ ⟨s, db⟩ ∧ Agree ⟨s, db⟩

/-! ## Corresponding rows -/

section Rows

variable {x : Services}

theorem Agree.accountPairs (h : x.Agree) :
    List.Forall₂ (fun a r => SameAccountRow a r ∧ x.SameAccount a.accountId r.accountId)
      x.javalin.accounts x.spring.1.account :=
  SameKey.of_rows h.accounts h.accountIds x.spring.2.accountId

theorem Agree.messagePairs (h : x.Agree) :
    List.Forall₂ (fun m r => x.SameMessageRow m r ∧ x.SameMessage m.messageId r.messageId)
      x.javalin.messages.rows x.spring.1.message :=
  SameKey.of_rows h.messages h.messageIds x.spring.2.messageId

theorem accountAlike {a : Javalin.Account} {r : Spring.AccountRow} (h : SameAccountRow a r)
    (hId : x.SameAccount a.accountId r.accountId) : x.AccountAlike a r.entity where
  accountId := ⟨r.accountId, rfl, hId⟩
  username := h.username
  password := h.password

theorem messageAlike {m : Javalin.Message} {r : Spring.MessageRow} (h : x.SameMessageRow m r)
    (hId : x.SameMessage m.messageId r.messageId) : x.MessageAlike m r.entity where
  messageId := ⟨r.messageId, rfl, hId⟩
  postedBy := h.postedBy
  messageText := h.messageText
  timePostedEpoch := h.timePostedEpoch

/-- Both services find the account with a username, or neither does. -/
theorem Agree.findByUsername (h : x.Agree) (u : JavaString) :
    x.javalin.accounts.find? (·.username = some u) = none ∧
        x.spring.1.account.find? (·.username = u) = none ∨
      ∃ a r, x.javalin.accounts.find? (·.username = some u) = some a ∧
        x.spring.1.account.find? (·.username = u) = some r ∧ SameAccountRow a r ∧
        x.SameAccount a.accountId r.accountId := by
  refine find?_forall₂ _ _ h.accountPairs fun a r hPair => ?_
  rw [decide_eq_true_eq, decide_eq_true_eq, hPair.1.username, Option.some.injEq]

/-- Both services find a message, or neither does. -/
theorem Agree.findMessage (h : x.Agree) {id id' : Int} (hId : x.SameMessage id id') :
    Javalin.getMessageById x.javalin.messages.rows id = none ∧
        x.spring.1.message.find? (·.messageId = id') = none ∨
      ∃ m r, Javalin.getMessageById x.javalin.messages.rows id = some m ∧
        x.spring.1.message.find? (·.messageId = id') = some r ∧ x.SameMessageRow m r ∧
        x.SameMessage m.messageId r.messageId := by
  have hPairs := hId.of_forall₂ h.messagePairs
  rcases find?_forall₂ (·.messageId = id) (·.messageId = id') hPairs
      (fun m r hPair => by simpa using hPair.2) with hNone | ⟨m, r, hFound, hFound', hPair⟩
  · exact Or.inl hNone
  · exact Or.inr ⟨m, r, hFound, hFound', hPair.1⟩

end Rows

/-! ## Registrations and logins -/

section Accounts

variable {env : Javalin.Platform} {ids : Spring.FreshIds} {x : Services} {key : Int}
  {u p : JavaString}

/-- A username is taken in both services or in neither. -/
theorem Agree.taken_iff (h : x.Agree) :
    (Javalin.getAccountByUsername x.javalin.accounts (some u)).isSome ↔
      Spring.UsernameTaken x.spring ⟨none, some u, some p⟩ := by
  have hFind : Javalin.getAccountByUsername x.javalin.accounts (some u) =
      x.javalin.accounts.find? (·.username = some u) := rfl
  rw [Spring.usernameTaken_iff, hFind]
  rcases h.findByUsername u with ⟨hNone, hNone'⟩ | ⟨a, r, hFound, hFound', -⟩
  · simp [hNone, hNone']
  · simp [hFound, hFound']

theorem Agree.insertable_iff (h : x.Agree) :
    Javalin.Insertable x.javalin.accounts ⟨0, some u, some p⟩ ↔
      ¬Spring.UsernameTaken x.spring ⟨none, some u, some p⟩ ∧
        Spring.Account.Fits ⟨none, some u, some p⟩ := by
  rw [Spring.fits_strings_iff, ← h.taken_iff]
  refine and_congr ?_ Iff.rfl
  have hFind : Javalin.getAccountByUsername x.javalin.accounts (some u) =
      x.javalin.accounts.find? (·.username = some u) := rfl
  rw [hFind, Option.not_isSome_iff_eq_none, List.find?_eq_none]
  simp [Javalin.formatArg]

/-- `addAccount` passes on exactly the valid accounts with a free username. -/
theorem Agree.addAccount (h : x.Agree) [Decidable (Spring.UsernameTaken x.spring
    ⟨none, some u, some p⟩)] [Decidable (Spring.Account.Valid ⟨none, some u, some p⟩)] :
    Javalin.addAccount (fun u => Javalin.getAccountByUsername x.javalin.accounts u)
        (some ⟨0, some u, some p⟩) =
      if Spring.Account.Valid ⟨none, some u, some p⟩ ∧
        ¬Spring.UsernameTaken x.spring ⟨none, some u, some p⟩ then
        .ok (some ⟨0, some u, some p⟩)
      else .ok none := by
  rw [Javalin.addAccount_strings, ← ite_not]
  refine if_congr ?_ rfl rfl
  rw [Spring.valid_strings_iff, h.taken_iff (p := p), not_or, not_or, Nat.not_lt, and_assoc]

/-- The tables after a registration. -/
theorem Agree.register_rows (h : x.Agree) {t : Javalin.Store} {db' : Spring.Db}
    (hBlank : u ≠ []) (hKey : key ∉ x.javalin.accounts.map Javalin.Account.accountId)
    (hAccounts : t.accounts = x.javalin.accounts ++ [⟨key, some u, some p⟩])
    (hMessages : t.messages = x.javalin.messages)
    (hTables : db'.1 = { x.spring.1 with
      account := x.spring.1.account ++ [Spring.newAccount ids x.spring u p] }) :
    Agree ⟨t, db'⟩ ∧ SameAccount ⟨t, db'⟩ key (Spring.newAccount ids x.spring u p).accountId := by
  have hIds : t.accounts.map Javalin.Account.accountId =
      x.javalin.accounts.map Javalin.Account.accountId ++ [key] := by
    rw [hAccounts, List.map_append]
    rfl
  have hIds' : db'.1.account.map Spring.AccountRow.accountId =
      x.spring.1.account.map Spring.AccountRow.accountId ++
        [(Spring.newAccount ids x.spring u p).accountId] := by
    rw [hTables, List.map_append]
    rfl
  have hKey' : (Spring.newAccount ids x.spring u p).accountId ∉
      x.spring.1.account.map Spring.AccountRow.accountId := by
    intro hMem
    obtain ⟨r, hr, hEq⟩ := List.mem_map.mp hMem
    exact ids.account_fresh _ r hr hEq
  constructor
  · have hOld : List.Forall₂ (SameMessageRow ⟨t, db'⟩) x.javalin.messages.rows
        x.spring.1.message := by
      refine (forall₂_and_right h.messages x.spring.2.postedBy).imp ?_
      rintro m r ⟨hRow, hPosters⟩
      obtain ⟨poster, hPoster, hSame⟩ := hRow.postedBy
      have hMem : m.postedBy ∈ x.javalin.accounts.map Javalin.Account.accountId :=
        hSame.mem_iff.mpr (hPosters poster hPoster)
      refine ⟨⟨poster, hPoster, ?_⟩, hRow.messageText, hRow.timePostedEpoch⟩
      unfold SameAccount
      rw [hIds, hIds']
      exact hSame.snoc hMem hKey hKey'
    exact {
      accounts := by
        rw [hAccounts, hTables]
        exact snoc_forall₂ h.accounts ⟨rfl, rfl⟩
      messages := by
        rw [hMessages, hTables]
        exact hOld
      accountIds := by
        rw [hIds]
        exact List.nodup_append_comm.mp (List.nodup_cons.mpr ⟨hKey, h.accountIds⟩)
      messageIds := by
        rw [hMessages]
        exact h.messageIds
      used := by
        rw [hMessages]
        exact h.used
      given := by
        rw [hTables]
        exact forall_mem_snoc h.given ⟨hBlank, Option.some_ne_none p⟩ }
  · unfold SameAccount
    rw [hIds, hIds']
    refine SameKey.new ?_ hKey hKey'
    rw [List.length_map, List.length_map, h.accounts.length_eq]

/-- A registration is answered alike. -/
theorem Agree.register (h : x.Agree) (hExecutes : Javalin.Executes env)
    (hUsername : Javalin.sql.quote ∉ u) (hPassword : Javalin.sql.quote ∉ p) :
    AnswersAlike env ids x key (.accounts (.registerUser (some ⟨0, some u, some p⟩)))
      (.registration ⟨none, some u, some p⟩) := by
  classical
  have hRead := Javalin.readScript_of_unquoted 0 hUsername hPassword
  have hPassed := h.addAccount (u := u) (p := p)
  by_cases hValid : Spring.Account.Valid ⟨none, some u, some p⟩
  · by_cases hTaken : Spring.UsernameTaken x.spring ⟨none, some u, some p⟩
    · rw [if_neg fun hBoth => hBoth.2 hTaken] at hPassed
      refine ⟨_, _, _, _, Javalin.answer_registerUser_rejected hPassed,
        Spring.answer_registration_taken hValid hTaken rfl, Or.inr ⟨rfl, rfl, ?_⟩, h⟩
      exact ⟨fun hNot => absurd hValid hNot, fun _ _ => rfl, fun _ hFree => absurd hTaken hFree⟩
    · rw [if_pos ⟨hValid, hTaken⟩] at hPassed
      by_cases hFits : Spring.Account.Fits ⟨none, some u, some p⟩
      · have hInsertable := h.insertable_iff.mpr ⟨hTaken, hFits⟩
        obtain ⟨id, t, hInserted, hKey, hAccounts, hMessages⟩ :=
          hExecutes.inserted x.javalin _ u p hRead hInsertable
        obtain ⟨db', hTables, hNew⟩ := Spring.answer_registration_new ids hValid hTaken hFits
        obtain ⟨hAgree, hSame⟩ := h.register_rows (Spring.valid_strings_iff.mp hValid).1 hKey
          hAccounts hMessages hTables
        exact ⟨_, _, _, _, Javalin.answer_registerUser_inserted hPassed hInserted, hNew,
          Or.inl ⟨_, _, rfl, rfl, ⟨_, rfl, hSame⟩, rfl, rfl⟩, hAgree⟩
      · have hNot := mt h.insertable_iff.mp fun hBoth => hFits hBoth.2
        have hFailed := hExecutes.rejected x.javalin _ u p hRead hNot
        refine ⟨_, _, _, _, Javalin.answer_registerUser_failed hPassed hFailed,
          Spring.answer_registration_tooLong hValid hTaken hFits, Or.inr ⟨rfl, rfl, ?_⟩, h⟩
        exact ⟨fun hNot => absurd hValid hNot, fun _ hUsed => absurd hUsed hTaken, fun _ _ => rfl⟩
  · rw [if_neg fun hBoth => hValid hBoth.1] at hPassed
    have hGiven : Spring.Account.Given ⟨none, some u, some p⟩ :=
      ⟨Option.some_ne_none u, fun _ => Option.some_ne_none p⟩
    refine ⟨_, _, _, _, Javalin.answer_registerUser_rejected hPassed,
      Spring.answer_registration_invalid hGiven hValid, Or.inr ⟨rfl, rfl, ?_⟩, h⟩
    exact ⟨fun _ => rfl, fun hTrue => absurd hTrue hValid, fun hTrue => absurd hTrue hValid⟩

/-- Both services know an account by its username and its password, or neither does. -/
theorem Agree.verify (h : x.Agree) (u p : JavaString) :
    Javalin.verifyAccount x.javalin.accounts (some u) (some p) = .ok none ∧
        Spring.AccountService.login x.spring (some ⟨none, some u, some p⟩) = .ok none ∨
      ∃ a r, Javalin.verifyAccount x.javalin.accounts (some u) (some p) = .ok (some a) ∧
        Spring.AccountService.login x.spring (some ⟨none, some u, some p⟩) =
          .ok (some (Spring.AccountRow.entity r)) ∧
        SameAccountRow a r ∧ x.SameAccount a.accountId r.accountId := by
  have hFind : Javalin.getAccountByUsername x.javalin.accounts (some u) =
      x.javalin.accounts.find? (·.username = some u) := rfl
  unfold Javalin.verifyAccount Spring.AccountService.login Spring.AccountRepository.findByUsername
  rw [hFind]
  dsimp only
  rcases h.findByUsername u with ⟨hNone, hNone'⟩ | ⟨a, r, hFound, hFound', hRow, hId⟩
  · rw [hNone, hNone']
    refine Or.inl ⟨rfl, ?_⟩
    split_ifs
    · rfl
    · rfl
  · obtain ⟨hBlank, hPassword⟩ := h.given r (List.mem_of_find?_eq_some hFound')
    have hUsername : r.username = u := by simpa using List.find?_some hFound'
    obtain ⟨stored, hStored⟩ := Option.ne_none_iff_exists'.mp hPassword
    have hStored' : a.password = some stored := hRow.password.trans hStored
    rw [hFound, hFound', if_neg (hUsername ▸ hBlank)]
    simp only [Option.map_some, Spring.AccountRow.entity, hStored, hStored', Javalin.deref, ok_bind]
    by_cases hSame : p = stored
    · subst hSame
      rw [if_neg (not_not_intro rfl), if_pos rfl]
      exact Or.inr ⟨a, r, rfl, by rw [← hStored]; rfl, hRow, hId⟩
    · have hOther : ¬some p = some stored := fun hEq => hSame (Option.some.inj hEq)
      rw [if_pos hOther, if_neg fun hEq => hOther hEq.symm]
      exact Or.inl ⟨rfl, rfl⟩

/-- A login is answered alike. -/
theorem Agree.login (h : x.Agree) :
    AnswersAlike env ids x key (.accounts (.login (some ⟨0, some u, some p⟩)))
      (.login ⟨none, some u, some p⟩) := by
  rcases h.verify u p with ⟨hNone, hNone'⟩ | ⟨a, r, hFound, hFound', hRow, hId⟩
  · exact ⟨_, _, _, _, Javalin.answer_login hNone, Spring.answer_login hNone',
      Or.inr ⟨rfl, rfl⟩, h⟩
  · exact ⟨_, _, _, _, Javalin.answer_login hFound, Spring.answer_login hFound',
      Or.inl ⟨_, _, rfl, rfl, accountAlike hRow hId⟩, h⟩

end Accounts

/-! ## Messages -/

section Messages

variable {env : Javalin.Platform} {ids : Spring.FreshIds} {x : Services} {db : Spring.Db}
  {key : Int} {text path : JavaString} {id id' : Int}

/-- The environment of the message requests of the Javalin service. -/
abbrev environment (x : Services) (env : Javalin.Platform) : Javalin.Environment :=
  ⟨x.javalin.accounts.map Javalin.Account.accountId, env.parseInt⟩

/-- The services after a request that has changed the messages only. -/
def withMessages (x : Services) (t : Javalin.MessageTable) (db : Spring.Db) : Services :=
  ⟨{ x.javalin with messages := t }, db⟩

theorem sameAccount_withMessages {t : Javalin.MessageTable} {ms : List Spring.MessageRow}
    (hTables : db.1 = { x.spring.1 with message := ms }) :
    (x.withMessages t db).SameAccount = x.SameAccount := by
  unfold SameAccount withMessages
  rw [hTables]

theorem sameMessageRow_withMessages {t : Javalin.MessageTable} {ms : List Spring.MessageRow}
    (hTables : db.1 = { x.spring.1 with message := ms }) {m : Javalin.Message}
    {n : Spring.MessageRow} (h : x.SameMessageRow m n) :
    (x.withMessages t db).SameMessageRow m n where
  postedBy := by
    rw [sameAccount_withMessages hTables]
    exact h.postedBy
  messageText := h.messageText
  timePostedEpoch := h.timePostedEpoch

theorem Agree.withMessages (h : x.Agree) {t : Javalin.MessageTable}
    {ms : List Spring.MessageRow} (hTables : db.1 = { x.spring.1 with message := ms })
    (hRows : List.Forall₂ x.SameMessageRow t.rows ms)
    (hIds : (t.rows.map Javalin.Message.messageId).Nodup)
    (hUsed : ∀ m ∈ t.rows, m.messageId ∈ t.used) : (x.withMessages t db).Agree where
  accounts := by
    unfold Services.withMessages
    rw [hTables]
    exact h.accounts
  messages := by
    have hRows' := hRows.imp fun m n hRow => sameMessageRow_withMessages (t := t) hTables hRow
    unfold Services.withMessages at hRows' ⊢
    rw [hTables]
    exact hRows'
  accountIds := h.accountIds
  messageIds := hIds
  used := hUsed
  given := by
    unfold Services.withMessages
    rw [hTables]
    exact h.given

/-- A new message is answered alike. -/
theorem Agree.create (h : x.Agree) (hKey : env.messageKey ∉ x.javalin.messages.used) {time : Int}
    (hPoster : x.SameAccount id id') :
    AnswersAlike env ids x key (.messages (.newMessage (some ⟨0, id, some text, time⟩)))
      (.postNewMessage ⟨none, some id', some text, some time⟩) := by
  have hValid : Spring.Message.Valid x.spring ⟨none, some id', some text, some time⟩ ↔
      text ≠ [] ∧ text.length < 255 ∧ id ∈ x.javalin.accounts.map Javalin.Account.accountId := by
    rw [hPoster.mem_iff, List.mem_map]
    unfold Spring.Message.Valid
    simp [eq_comm]
  have hServe := Javalin.serve_newMessage (x.environment env) env.messageKey
    x.javalin.messages id text time
  by_cases hStored : text ≠ [] ∧ text.length < 255 ∧
      id ∈ x.javalin.accounts.map Javalin.Account.accountId
  · rw [if_pos hStored] at hServe
    obtain ⟨db', hTables, hNew⟩ :=
      Spring.answer_postNewMessage_new ids rfl (hValid.mpr hStored)
    have hRow : x.SameMessageRow ⟨env.messageKey, id, some text, time⟩
        (Spring.newMessage ids x.spring ⟨none, some id', some text, some time⟩) :=
      ⟨⟨id', rfl, hPoster⟩, rfl, rfl⟩
    have hFresh : env.messageKey ∉
        x.javalin.messages.rows.map Javalin.Message.messageId := by
      intro hMem
      obtain ⟨m, hm, hEq⟩ := List.mem_map.mp hMem
      exact hKey (hEq ▸ h.used m hm)
    have hFresh' : ids.message x.spring.1.message ∉
        x.spring.1.message.map Spring.MessageRow.messageId := by
      intro hMem
      obtain ⟨n, hn, hEq⟩ := List.mem_map.mp hMem
      exact ids.message_fresh _ n hn hEq
    have hAgree := h.withMessages hTables
      (t := ⟨x.javalin.messages.rows ++ [⟨env.messageKey, id, some text, time⟩],
        env.messageKey :: x.javalin.messages.used⟩) (snoc_forall₂ h.messages hRow)
      (nodup_map_snoc_iff.mpr ⟨h.messageIds, fun m hm hEq =>
        hFresh (List.mem_map.mpr ⟨m, hm, hEq⟩)⟩)
      (forall_mem_snoc (fun m hm => List.mem_cons_of_mem _ (h.used m hm)) List.mem_cons_self)
    refine ⟨_, _, _, _, Javalin.answer_messages hServe rfl, hNew,
      Or.inl ⟨_, _, rfl, rfl, ?_⟩, hAgree⟩
    refine messageAlike (sameMessageRow_withMessages hTables hRow) ?_
    unfold SameMessage
    rw [hTables]
    dsimp only
    rw [List.map_append, List.map_append]
    refine SameKey.new ?_ hFresh hFresh'
    rw [List.length_map, List.length_map, h.messages.length_eq]
  · rw [if_neg hStored] at hServe
    have hGiven : Spring.Message.Given ⟨none, some id', some text, some time⟩ :=
      fun _ _ _ _ => Option.some_ne_none id'
    exact ⟨_, _, _, _, Javalin.answer_messages hServe rfl,
      Spring.answer_postNewMessage_rejected hGiven (mt hValid.mp hStored),
      Or.inr ⟨rfl, rfl, rfl⟩, h⟩

/-- The messages of the two tables correspond. -/
theorem Agree.messagesAlike (h : x.Agree) : List.Forall₂ x.MessageAlike x.javalin.messages.rows
    (Spring.MessageRepository.findAll x.spring) := by
  refine List.forall₂_map_right_iff.mpr (h.messagePairs.imp ?_)
  intro m n hPair
  exact messageAlike hPair.1 hPair.2

theorem Agree.all (h : x.Agree) :
    AnswersAlike env ids x key (.messages .getAllMessages) .getAllMessages :=
  ⟨_, _, _, _, Javalin.answer_messages (t := x.javalin.messages) rfl rfl, rfl,
    ⟨_, _, rfl, rfl, h.messagesAlike⟩, h⟩

/-- The poster of a row is the account with an id in both services or in neither. -/
theorem Agree.postedBy_iff (h : x.Agree) (hId : x.SameAccount id id') :
    List.Forall₂ (fun m n => (x.SameMessageRow m n ∧ x.SameMessage m.messageId n.messageId) ∧
      (m.postedBy = id ↔ n.postedBy = some id')) x.javalin.messages.rows x.spring.1.message := by
  refine (forall₂_and_right h.messagePairs x.spring.2.postedBy).imp ?_
  rintro m n ⟨hPair, hPosters⟩
  obtain ⟨poster, hPoster, hSame⟩ := hPair.1.postedBy
  refine ⟨hPair, ?_⟩
  rw [hPoster, Option.some.injEq]
  exact hSame.eq_iff hId (hSame.mem_iff.mpr (hPosters poster hPoster))

theorem Agree.byUser (h : x.Agree) (hPath : env.parseInt path = some id)
    (hId : x.SameAccount id id') :
    AnswersAlike env ids x key (.messages (.getAllMessagesFromUserAccountId path))
      (.getAllMessagesByUser id') := by
  have hServe : x.javalin.messages.serve (x.environment env) env.messageKey
      (.getAllMessagesFromUserAccountId path) =
      (.messages (Javalin.selectAllMessagesByUserId x.javalin.messages.rows id),
        x.javalin.messages) := by
    simp only [Javalin.MessageTable.serve, Javalin.MessageTable.getMessagesFromUserId, hPath,
      Option.map_some]
  refine ⟨_, _, _, _, Javalin.answer_messages hServe rfl, rfl, ⟨_, _, rfl, rfl, ?_⟩, h⟩
  have hRows := filter_forall₂ (·.postedBy = id) (·.postedBy = some id')
    (h.postedBy_iff hId) fun m n hPair => by simpa using hPair.2
  refine List.forall₂_map_right_iff.mpr (hRows.imp ?_)
  intro m n hPair
  exact messageAlike hPair.1.1 hPair.1.2

theorem Agree.get (h : x.Agree) (hPath : env.parseInt path = some id)
    (hId : x.SameMessage id id') :
    AnswersAlike env ids x key (.messages (.getMessageById path))
      (.getMessageByMessageId id') := by
  have hServe : x.javalin.messages.serve (x.environment env) env.messageKey
      (.getMessageById path) =
      ((Javalin.getMessageById x.javalin.messages.rows id).elim .empty .message,
        x.javalin.messages) := by
    simp only [Javalin.MessageTable.serve, hPath]
    cases Javalin.getMessageById x.javalin.messages.rows id with
    | none => rfl
    | some m => rfl
  rcases h.findMessage hId with ⟨hNone, hNone'⟩ | ⟨m, n, hFound, hFound', hRow, hKeys⟩
  · rw [hNone] at hServe
    exact ⟨_, _, _, _, Javalin.answer_messages hServe rfl,
      Spring.answer_getMessageByMessageId hNone', Or.inr ⟨rfl, rfl, rfl⟩, h⟩
  · rw [hFound] at hServe
    have hSame : n.messageId = id' := by simpa using List.find?_some hFound'
    exact ⟨_, _, _, _, Javalin.answer_messages hServe rfl,
      Spring.answer_getMessageByMessageId hFound',
      Or.inl ⟨m, n.entity, rfl, rfl, congrArg some hSame, messageAlike hRow hKeys⟩, h⟩

/-- A deletion is answered alike. -/
theorem Agree.delete (h : x.Agree) (hPath : env.parseInt path = some id)
    (hId : x.SameMessage id id') :
    AnswersAlike env ids x key (.messages (.deleteMessageById path))
      (.deleteMessageById id') := by
  have hServe : x.javalin.messages.serve (x.environment env) env.messageKey
      (.deleteMessageById path) =
      (Javalin.getMessageById x.javalin.messages.rows id).elim (.empty, x.javalin.messages)
        fun m => (.message m, { x.javalin.messages with
          rows := Javalin.removeMessageById x.javalin.messages.rows id }) := by
    simp only [Javalin.MessageTable.serve, hPath, Javalin.MessageTable.deleteMessageById]
    cases Javalin.getMessageById x.javalin.messages.rows id with
    | none => rfl
    | some m => rfl
  rcases h.findMessage hId with ⟨hNone, hNone'⟩ | ⟨m, n, hFound, hFound', hRow, hKeys⟩
  · rw [hNone] at hServe
    exact ⟨_, _, _, _, Javalin.answer_messages hServe rfl,
      Spring.answer_deleteMessageById_none hNone', Or.inr ⟨rfl, rfl, rfl⟩, h⟩
  · rw [hFound] at hServe
    obtain ⟨db', hTables, hDeleted⟩ := Spring.answer_deleteMessageById_some ids hFound'
    have hMem := List.mem_of_find?_eq_some hFound'
    have hSame : n.messageId = id' := by simpa using List.find?_some hFound'
    refine ⟨_, _, _, _, Javalin.answer_messages hServe rfl, hDeleted,
      Or.inl ⟨m, n, hMem, rfl, rfl, hSame, messageAlike hRow hKeys⟩, ?_⟩
    have hRows := filter_forall₂ (·.messageId ≠ id) (·.messageId ≠ id')
      (hId.of_forall₂ h.messages) fun m n hPair => by simpa using not_congr hPair.2
    refine h.withMessages hTables (hRows.imp fun m n hPair => hPair.1) ?_ ?_
    · exact h.messageIds.sublist (List.filter_sublist.map _)
    · exact fun m hm => h.used m (List.mem_of_mem_filter hm)

/-- An update is answered alike. -/
theorem Agree.update (h : x.Agree) (hPath : env.parseInt path = some id)
    (hId : x.SameMessage id id') :
    AnswersAlike env ids x key
      (.messages (.updateMessageGivenMessageId path (some ⟨0, 0, some text, 0⟩)))
      (.updateMessage id' ⟨none, none, some text, none⟩) := by
  rcases h.findMessage hId with ⟨hNone, hNone'⟩ | ⟨m, n, hFound, hFound', hRow, hKeys⟩
  · have hServe := Javalin.serve_update_rejected (x.environment env) env.messageKey
      x.javalin.messages text hPath (Or.inr hNone)
    exact ⟨_, _, _, _, Javalin.answer_messages hServe rfl,
      Spring.answer_updateMessage_rejected (Or.inr hNone'), Or.inr ⟨rfl, rfl, rfl⟩, h⟩
  by_cases hText : AllowedText text
  · have hServe := Javalin.serve_update_found (x.environment env) env.messageKey
      x.javalin.messages hPath hText hFound
    obtain ⟨db', hTables, hUpdated⟩ := Spring.answer_updateMessage_found ids hText hFound'
    have hMem := List.mem_of_find?_eq_some hFound'
    have hSame : n.messageId = id' := by simpa using List.find?_some hFound'
    rw [Spring.overwrite_withText hMem, hSame] at hTables
    have hRow' : x.SameMessageRow { m with messageText := text } (n.withText text) :=
      ⟨hRow.postedBy, rfl, hRow.timePostedEpoch⟩
    have hRows : List.Forall₂ x.SameMessageRow
        (Javalin.updateMessageTextById x.javalin.messages.rows id text)
        (x.spring.1.message.map fun q =>
          if q.messageId = id' then q.withText text else q) := by
      refine List.rel_map ?_ (hId.of_forall₂ h.messages)
      rintro k l ⟨hPair, hBoth⟩
      dsimp only
      by_cases hHit : k.messageId = id
      · rw [if_pos hHit, if_pos (hBoth.mp hHit)]
        exact ⟨hPair.postedBy, rfl, hPair.timePostedEpoch⟩
      · rw [if_neg hHit, if_neg (mt hBoth.mpr hHit)]
        exact hPair
    have hColumn := Javalin.map_messageId_update x.javalin.messages.rows id text
    have hUsed : ∀ k ∈ Javalin.updateMessageTextById x.javalin.messages.rows id text,
        k.messageId ∈ x.javalin.messages.used := by
      intro k hk
      have hOld : k.messageId ∈ x.javalin.messages.rows.map Javalin.Message.messageId :=
        hColumn ▸ List.mem_map_of_mem hk
      obtain ⟨old, hMemOld, hEq⟩ := List.mem_map.mp hOld
      exact hEq ▸ h.used old hMemOld
    have hAgree := h.withMessages (t := ⟨Javalin.updateMessageTextById x.javalin.messages.rows id
      text, x.javalin.messages.used⟩) hTables hRows (hColumn ▸ h.messageIds) hUsed
    have hMem' : n.withText text ∈ db'.1.message := by
      rw [hTables]
      exact List.mem_map.mpr ⟨n, hMem, if_pos hSame⟩
    refine ⟨_, _, _, _, Javalin.answer_messages hServe rfl, hUpdated,
      Or.inl ⟨_, _, hMem', rfl, rfl, hSame, ?_⟩, hAgree⟩
    refine messageAlike (sameMessageRow_withMessages hTables hRow') ?_
    have hColumn' : db'.1.message.map Spring.MessageRow.messageId =
        x.spring.1.message.map Spring.MessageRow.messageId := by
      rw [hTables, ← hSame, ← Spring.overwrite_withText hMem, map_key_overwrite]
    unfold SameMessage
    rw [hColumn, hColumn']
    exact hKeys
  · have hServe := Javalin.serve_update_rejected (x.environment env) env.messageKey
      x.javalin.messages text hPath (Or.inl hText)
    exact ⟨_, _, _, _, Javalin.answer_messages hServe rfl,
      Spring.answer_updateMessage_rejected (Or.inl hText), Or.inr ⟨rfl, rfl, rfl⟩, h⟩

/-- The answers to the same request are alike. -/
theorem Agree.answersAlike (h : x.Agree) (ids : Spring.FreshIds) (key : Int)
    (hExecutes : Javalin.Executes env) (hKey : env.messageKey ∉ x.javalin.messages.used)
    {r : Javalin.ServiceRequest} {q : Spring.Request} (hSame : x.SameRequest env.parseInt r q) :
    AnswersAlike env ids x key r q := by
  cases hSame with
  | register u p hUsername hPassword => exact h.register hExecutes hUsername hPassword
  | login u p => exact h.login
  | create text time hPoster => exact h.create hKey hPoster
  | all => exact h.all
  | get hPath hId => exact h.get hPath hId
  | delete hPath hId => exact h.delete hPath hId
  | update text hPath hId => exact h.update hPath hId
  | byUser hPath hId => exact h.byUser hPath hId

/-- One exchange. -/
theorem Step.alike {x y : Services} {e : Exchange} (hExecutes : Javalin.Executes env)
    (h : x.Agree) (hStep : Step env ids x e y) : Alike x e y ∧ y.Agree := by
  have hExecutes' : Javalin.Executes { env with messageKey := e.key } :=
    ⟨hExecutes.inserted, hExecutes.rejected⟩
  obtain ⟨ctx, s, db, response, hJavalin, hSpring, hAlike, hAgree⟩ :=
    h.answersAlike ids e.key hExecutes' hStep.key hStep.same
  obtain ⟨rfl, rfl⟩ := Prod.mk.inj (hJavalin.symm.trans hStep.javalin)
  obtain ⟨rfl, rfl⟩ := Prod.mk.inj (hSpring.symm.trans hStep.spring)
  exact ⟨hAlike, hAgree⟩

/-- **The services agree.** From tables with the same rows, whatever requests both services get,
every exchange is alike, and the tables have the same rows again. -/
theorem services_agree {x y : Services} {es : List Exchange} (hExecutes : Javalin.Executes env)
    (hAgree : x.Agree) (hRun : Run (Step env ids) x es y) :
    Run (Meeting (Step env ids) Alike) x es y ∧ y.Agree := by
  have hKeeps : ∀ z e w, Agree z → Step env ids z e w →
      Agree w ∧ Meeting (Step env ids) Alike z e w := by
    intro z e w hInv hStep
    obtain ⟨hAlike, hAgree'⟩ := hStep.alike hExecutes hInv
    exact ⟨hAgree', hStep, hAlike⟩
  obtain ⟨hAgree', hRun'⟩ := hRun.simulate (f := fun z => z) hAgree hKeeps
  exact ⟨hRun', hAgree'⟩

/-- Both services answer every request. -/
def exchange (env : Javalin.Platform) (ids : Spring.FreshIds) (x : Services) (key : Int)
    (r : Javalin.ServiceRequest) (q : Spring.Request) : Exchange × Services :=
  let (context, javalin) := Javalin.answer { env with messageKey := key } x.javalin r
  let (spring, response) := Spring.answer ids x.spring q
  (⟨key, r, q, context, response⟩, ⟨javalin, spring⟩)

theorem step_exchange {x : Services} (hSame : x.SameRequest env.parseInt r q)
    (hKey : key ∉ x.javalin.messages.used) :
    Step env ids x (exchange env ids x key r q).1 (exchange env ids x key r q).2 :=
  ⟨hSame, hKey, rfl, rfl⟩

end Messages

end Services

/-! ## Two services with one account and one message -/

namespace Javalin

theorem usernames_snoc {s : Store} {u p : JavaString} (key : Int)
    (h : Insertable s.accounts ⟨0, some u, some p⟩) :
    ((s.accounts ++ [(⟨key, some u, some p⟩ : Account)]).filterMap Account.username).Nodup := by
  have hNew : u ∉ s.accounts.filterMap Account.username := by
    intro hMem
    obtain ⟨a, ha, hName⟩ := List.mem_filterMap.mp hMem
    exact h.1 (List.mem_map.mpr ⟨a, ha, hName⟩)
  have hSnoc : (s.accounts ++ [(⟨key, some u, some p⟩ : Account)]).filterMap Account.username =
      (s.accounts.filterMap Account.username).concat u := by
    rw [List.filterMap_append, List.concat_eq_append]
    rfl
  rw [hSnoc, List.nodup_concat]
  exact ⟨hNew, s.usernames⟩

/-- A database that reads the text. -/
def executeText (s : Store) (text : JavaString) : Option Int × Store :=
  match readScript sql text with
  | some [.insert ⟨_, _, [u, p]⟩] =>
    if h : Insertable s.accounts ⟨0, some u, some p⟩ then
      let key := freshKey (s.accounts.map Account.accountId)
      (some key, ⟨s.accounts ++ [⟨key, some u, some p⟩], s.messages, usernames_snoc key h⟩)
    else (none, s)
  | _ => (none, s)

def samplePlatform : Platform where
  parseInt path := if path = Spring.javaString "2" then some 2 else none
  executeUpdate := executeText
  messageKey := 2

theorem executes_samplePlatform : Executes samplePlatform where
  inserted s text u p hRead hInsertable := by
    have hExecute : executeText s text = (some (freshKey (s.accounts.map Account.accountId)),
        ⟨s.accounts ++ [⟨freshKey (s.accounts.map Account.accountId), some u, some p⟩], s.messages,
          usernames_snoc _ hInsertable⟩) := by
      unfold executeText
      rw [hRead]
      exact dif_pos hInsertable
    refine ⟨_, _, hExecute, ?_, rfl, rfl⟩
    intro hMem
    exact Int.lt_irrefl _ (lt_freshKey hMem)
  rejected s text u p hRead hNot := by
    change executeText s text = _
    unfold executeText
    rw [hRead]
    exact dif_neg hNot

end Javalin

namespace Services

def sample : Services where
  javalin := ⟨[Javalin.Accounts.testuser1], Javalin.MessageTable.seeded, by decide⟩
  spring := Spring.oneMessage

theorem agree_sample : sample.Agree where
  accounts := .cons ⟨rfl, rfl⟩ .nil
  messages := .cons ⟨⟨9999, rfl, .cons (iff_of_true rfl rfl) .nil⟩, rfl, rfl⟩ .nil
  accountIds := by decide
  messageIds := by decide
  used := by decide
  given := by decide

/-- A message of the account, and what both services answer. -/
def sampleCreate : Exchange × Services :=
  exchange Javalin.samplePlatform Spring.nextIds sample 2
    (.messages (.newMessage (some ⟨0, 1, some (Spring.javaString "hello"), 5⟩)))
    (.postNewMessage ⟨none, some 9999, some (Spring.javaString "hello"), some 5⟩)

/-- The message is read under both of its ids. -/
def sampleGet : Exchange × Services :=
  exchange Javalin.samplePlatform Spring.nextIds sampleCreate.2 3
    (.messages (.getMessageById (Spring.javaString "2"))) (.getMessageByMessageId 10000)

theorem services_agree_sample :
    Run (Meeting (Step Javalin.samplePlatform Spring.nextIds) Alike) sample
        [sampleCreate.1, sampleGet.1] sampleGet.2 ∧ sampleGet.2.Agree := by
  have hPoster : sample.SameAccount 1 9999 := .cons (iff_of_true rfl rfl) .nil
  have hCreate : Step Javalin.samplePlatform Spring.nextIds sample sampleCreate.1 sampleCreate.2 :=
    step_exchange (.create _ _ hPoster) (by decide)
  have hId : sampleCreate.2.SameMessage 2 10000 := by
    refine .cons (iff_of_false ?_ ?_) (.cons (iff_of_true rfl rfl) .nil)
    · decide
    · decide
  have hGet : Step Javalin.samplePlatform Spring.nextIds sampleCreate.2 sampleGet.1 sampleGet.2 :=
    step_exchange (.get (by decide) hId) (by decide)
  exact services_agree Javalin.executes_samplePlatform agree_sample
    (.snoc (.snoc .refl hCreate) hGet)

end Services

end Windborne
