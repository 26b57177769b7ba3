import Windborne.Rest.UserStories

/-!
# The answers of the two services

What a request is answered, as an equation for every outcome: a registration that is rejected,
fails or adds an account, a login, and the message requests. The bodies have no null fields.
-/

namespace Windborne

open Library
open Spring (JavaString HttpStatus)

/-! ## One request at a time -/

namespace Javalin

/-- The answer to a request; there is none after an exception. -/
def answer (env : Platform) (s : Store) (r : ServiceRequest) : Option Context × Store :=
  match SocialMediaController.handle env s r with
  | .ok (ctx, s) => (some ctx, s)
  | .error _ => (none, s)

/-- The database executes the text of an `INSERT` into the account table. -/
structure Executes (env : Platform) : Prop where
  inserted : ∀ (s : Store) (text u p : JavaString),
    readScript sql text = some [.insert (insertStatement u p)] →
    Insertable s.accounts ⟨0, some u, some p⟩ →
    ∃ key t, env.executeUpdate s text = (some key, t) ∧
      key ∉ s.accounts.map Account.accountId ∧
      t.accounts = s.accounts ++ [⟨key, some u, some p⟩] ∧ t.messages = s.messages
  rejected : ∀ (s : Store) (text u p : JavaString),
    readScript sql text = some [.insert (insertStatement u p)] →
    ¬Insertable s.accounts ⟨0, some u, some p⟩ → env.executeUpdate s text = (none, s)

end Javalin

namespace Spring

/-- What a response contains. -/
inductive Body where
  | account (a : Account)
  | message (m : Message)
  | messages (ms : List Message)
  | number (n : Int)
  deriving DecidableEq

def Answer.map {α β : Type} (f : α → β) (answer : Answer α) : Answer β :=
  (answer.1, ⟨answer.2.status, answer.2.body.map f⟩)

open SocialMediaController in
def answer (ids : FreshIds) (db : Db) : Request → Answer Body
  | .registration a => (registration ids db a).map .account
  | .login a => (login db a).map .account
  | .postNewMessage m => (postNewMessage ids db m).map .message
  | .getAllMessages => (getAllMessages db).map .messages
  | .getMessageByMessageId id => (getMessageByMessageId db id).map .message
  | .deleteMessageById id => (deleteMessageById db id).map .number
  | .updateMessage id m => (updateMessage ids db id m).map .number
  | .getAllMessagesByUser id => (getAllMessagesByUser db id).map .messages

end Spring

/-! ## Registrations and logins -/

namespace Javalin

variable {env : Platform} {s : Store} {a : Account}

theorem answer_registerUser_rejected
    (h : addAccount (fun u => getAccountByUsername s.accounts u) (some a) = .ok none) :
    answer env s (.accounts (.registerUser (some a))) = (some (.bare .badRequest), s) := by
  unfold answer SocialMediaController.handle SocialMediaController.registerUserHandler
  dsimp only
  rw [h]
  rfl

theorem answer_registerUser_failed
    (h : addAccount (fun u => getAccountByUsername s.accounts u) (some a) = .ok (some a))
    (hFailed : env.executeUpdate s (insertAccountSql a) = (none, s)) :
    answer env s (.accounts (.registerUser (some a))) = (some (.bare .badRequest), s) := by
  unfold answer SocialMediaController.handle SocialMediaController.registerUserHandler
  dsimp only
  rw [h, SocialMediaController.passOn, ok_bind]
  dsimp only
  rw [hFailed]
  rfl

theorem answer_registerUser_inserted {key : Int} {t : Store}
    (h : addAccount (fun u => getAccountByUsername s.accounts u) (some a) = .ok (some a))
    (hInserted : env.executeUpdate s (insertAccountSql a) = (some key, t)) :
    answer env s (.accounts (.registerUser (some a))) =
      (some ⟨.ok, some (.account { a with accountId := key })⟩, t) := by
  unfold answer SocialMediaController.handle SocialMediaController.registerUserHandler
  dsimp only
  rw [h, SocialMediaController.passOn, ok_bind]
  dsimp only
  rw [hInserted]
  rfl

theorem answer_login {found : Option Account}
    (h : verifyAccount s.accounts a.username a.password = .ok found) :
    answer env s (.accounts (.login (some a))) =
      (some (found.elim (.bare .unauthorized) fun b => ⟨.ok, some (.account b)⟩), s) := by
  unfold answer SocialMediaController.handle SocialMediaController.loginHandler
  dsimp only
  rw [h]
  cases found with
  | none => rfl
  | some b => rfl

variable {u p : JavaString}

/-- The checks of a registration with both strings. -/
theorem addAccount_strings (find : JavaString → Option Account) (u p : JavaString) :
    addAccount find (some ⟨0, some u, some p⟩) =
      if u = [] ∨ p.length < 4 ∨ (find u).isSome then .ok none
      else .ok (some ⟨0, some u, some p⟩) := by
  simp only [addAccount, deref, ok_bind, pure_eq_ok]
  by_cases hBlank : u = []
  · rw [if_pos hBlank, if_pos (Or.inl hBlank)]
  by_cases hShort : p.length < 4
  · rw [if_neg hBlank, if_pos hShort, if_pos (Or.inr (Or.inl hShort))]
  · rw [if_neg hBlank, if_neg hShort]
    exact if_congr (by simp [hBlank, hShort]) rfl rfl

end Javalin

namespace Spring

open SocialMediaController (registration)

variable {ids : FreshIds} {db : Db} {u p : JavaString}

theorem valid_strings_iff : Account.Valid ⟨none, some u, some p⟩ ↔ u ≠ [] ∧ 4 ≤ p.length := by
  unfold Account.Valid
  simp

theorem fits_strings_iff :
    Account.Fits ⟨none, some u, some p⟩ ↔ u.length ≤ 255 ∧ p.length ≤ 255 := by
  unfold Account.Fits Varchar
  simp

theorem usernameTaken_iff {id : Option Int} {password : Option JavaString} :
    UsernameTaken db ⟨id, some u, password⟩ ↔
      db.1.account.find? (·.username = u) ≠ none := by
  unfold UsernameTaken
  rw [ne_eq, List.find?_eq_none, not_forall]
  simp [eq_comm]

theorem answer_registration_invalid {a : Account} (hGiven : a.Given) (hInvalid : ¬a.Valid) :
    answer ids db (.registration a) = (db, ⟨.badRequest, some (.account a)⟩) := by
  unfold answer registration
  dsimp only
  rcases register_invalid ids db hInvalid with ⟨-, hRun⟩ | ⟨hNot, -⟩
  · rw [hRun]
    rfl
  · exact absurd hGiven hNot

theorem answer_registration_taken {a : Account} (hValid : a.Valid)
    (hTaken : UsernameTaken db a) (hId : a.accountId = none) :
    answer ids db (.registration a) = (db, ⟨.conflict, some (.account a)⟩) := by
  classical
  unfold answer registration
  dsimp only
  rw [register_valid ids db hValid, if_pos hTaken, ok_bind]
  dsimp only
  rw [if_pos hId]
  rfl

theorem answer_registration_tooLong {a : Account} (hValid : a.Valid)
    (hFree : ¬UsernameTaken db a) (hWide : ¬a.Fits) :
    answer ids db (.registration a) = (db, ⟨.internalServerError, none⟩) := by
  classical
  obtain ⟨username, -, hName, -⟩ := id hValid
  unfold answer registration
  dsimp only
  rw [register_valid ids db hValid, if_neg hFree]
  cases hSave : AccountRepository.save ids db a with
  | ok answer => exact absurd ((save_iff ids hName hFree).mp ⟨_, _, hSave⟩) hWide
  | error e => rfl

theorem answer_login {a : Account} {found : Option Account}
    (h : AccountService.login db (some a) = .ok found) :
    answer ids db (.login a) = (db, found.elim ⟨.unauthorized, some (.account a)⟩
      fun temp => ⟨.ok, some (.account temp)⟩) := by
  unfold answer SocialMediaController.login
  dsimp only
  rw [h]
  cases found with
  | none => rfl
  | some temp => rfl

/-- The row that a registration adds. -/
def newAccount (ids : FreshIds) (db : Db) (u p : JavaString) : AccountRow :=
  ⟨ids.account db.1.account, u, some p⟩

theorem answer_registration_new (ids : FreshIds)
    (hValid : Account.Valid ⟨none, some u, some p⟩)
    (hFree : ¬UsernameTaken db ⟨none, some u, some p⟩)
    (hFits : Account.Fits ⟨none, some u, some p⟩) :
    ∃ db' : Db, db'.1 = { db.1 with account := db.1.account ++ [newAccount ids db u p] } ∧
      answer ids db (.registration ⟨none, some u, some p⟩) =
        (db', ⟨.ok, some (.account (newAccount ids db u p).entity)⟩) := by
  classical
  have hSchema : Schema { db.1 with account := db.1.account ++ [newAccount ids db u p] } :=
    schema_insert_account db (fun q hq => ids.account_fresh _ q hq)
      (fun q hq hEq => hFree ⟨q, hq, congrArg some hEq.symm⟩) (hFits.1 u rfl) hFits.2
  have hSave : AccountRepository.save ids db ⟨none, some u, some p⟩ =
      .ok (⟨_, hSchema⟩, (newAccount ids db u p).entity) := by
    unfold AccountRepository.save
    dsimp only [Option.filter_none, Option.getD_none]
    exact congrArg (· >>= _) (commit_of_schema hSchema)
  refine ⟨⟨_, hSchema⟩, rfl, ?_⟩
  unfold answer registration
  dsimp only
  rw [register_valid ids db hValid, if_neg hFree, hSave]
  rfl

end Spring

/-! ## Messages -/

namespace Javalin

variable {env : Platform} {s : Store} {r : Request} {response : Response} {t : MessageTable}
  {ctx : Context}

theorem answer_messages
    (h : s.messages.serve ⟨s.accounts.map Account.accountId, env.parseInt⟩ env.messageKey r =
      (response, t)) (hContext : response.context = some ctx) :
    answer env s (.messages r) = (some ctx, { s with messages := t }) := by
  unfold answer SocialMediaController.handle
  dsimp only
  rw [handleMessages_eq, h]
  dsimp only
  rw [hContext]
  rfl

theorem acceptsText_of_allowed {text : JavaString} (h : AllowedText text) :
    acceptsText (some text) = some text := by
  have hGood : ¬(text.length > 255 ∨ text.length = 0) := by
    rintro (hLong | hBlank)
    · exact Nat.not_lt.mpr h.2 hLong
    · exact h.1 (List.length_eq_zero_iff.mp hBlank)
  exact if_neg hGood

theorem acceptsText_of_not_allowed {text : JavaString} (h : ¬AllowedText text) :
    acceptsText (some text) = none := by
  have hBad : text.length > 255 ∨ text.length = 0 := by
    by_contra hNot
    rw [not_or, Nat.not_lt] at hNot
    exact h ⟨fun hBlank => hNot.2 (List.length_eq_zero_iff.mpr hBlank), hNot.1⟩
  exact if_pos hBad

section Updates

variable {id : Int} {path text : JavaString}

theorem serve_update_rejected (env : Environment) (key : Int) (t : MessageTable)
    (text : JavaString) (hPath : env.parseInt path = some id)
    (h : ¬AllowedText text ∨ getMessageById t.rows id = none) :
    t.serve env key (.updateMessageGivenMessageId path (some ⟨0, 0, some text, 0⟩)) =
      (.badRequest, t) := by
  simp only [MessageTable.serve, MessageTable.updateMessageById]
  by_cases hText : AllowedText text
  · rw [acceptsText_of_allowed hText, hPath]
    dsimp only
    rw [h.resolve_left (not_not_intro hText)]
  · rw [acceptsText_of_not_allowed hText]

theorem serve_update_found (env : Environment) (key : Int) (t : MessageTable) {m : Message}
    (hPath : env.parseInt path = some id)
    (hText : AllowedText text) (hFound : getMessageById t.rows id = some m) :
    t.serve env key (.updateMessageGivenMessageId path (some ⟨0, 0, some text, 0⟩)) =
      (.message { m with messageText := text },
        { t with rows := updateMessageTextById t.rows id text }) := by
  have hAfter : getMessageById (updateMessageTextById t.rows id text) id =
      some { m with messageText := text } := by
    rw [getMessageById_update, hFound, Option.map_some, if_pos (mem_of_getMessageById hFound).2]
  simp only [MessageTable.serve, MessageTable.updateMessageById]
  rw [acceptsText_of_allowed hText, hPath]
  dsimp only
  rw [hFound]
  dsimp only
  rw [hAfter]

end Updates

/-- A message with a text that can be stored, of an existing account, is added. -/
theorem serve_newMessage (env : Environment) (key : Int) (t : MessageTable) (poster : Int)
    (text : JavaString) (time : Int) :
    t.serve env key (.newMessage (some ⟨0, poster, some text, time⟩)) =
      if text ≠ [] ∧ text.length < 255 ∧ poster ∈ env.accounts then
        (.message ⟨key, poster, some text, time⟩,
          ⟨t.rows ++ [⟨key, poster, some text, time⟩], key :: t.used⟩)
      else (.badRequest, t) := by
  simp only [MessageTable.serve, MessageTable.addMessage, acceptsNew]
  by_cases hBlank : text = []
  · rw [if_pos hBlank, if_neg fun h => h.1 hBlank]
  by_cases hLong : text.length ≥ 255
  · rw [if_neg hBlank, if_pos hLong, if_neg fun h => Nat.not_le.mpr h.2.1 hLong]
  rw [if_neg hBlank, if_neg hLong]
  simp only [userExists, if_true, MessageTable.insertMessage]
  by_cases hPoster : poster ∈ env.accounts
  · rw [if_pos hPoster, if_pos ⟨hBlank, Nat.not_le.mp hLong, hPoster⟩]
  · rw [if_neg hPoster, if_neg fun h => hPoster h.2.2]

end Javalin

namespace Spring

open SocialMediaController

variable {ids : FreshIds} {db : Db} {id : Int} {text : JavaString}

theorem answer_postNewMessage_rejected {m : Message} (hGiven : m.Given)
    (hInvalid : ¬m.Valid db) :
    answer ids db (.postNewMessage m) = (db, ⟨.badRequest, some (.message m)⟩) := by
  unfold answer postNewMessage
  dsimp only
  rcases createMessage_invalid ids db hInvalid with ⟨-, hRun⟩ | ⟨hNot, -⟩
  · rw [hRun]
    rfl
  · exact absurd hGiven hNot

/-- The row that a new message adds. -/
def newMessage (ids : FreshIds) (db : Db) (m : Message) : MessageRow :=
  ⟨ids.message db.1.message, m.postedBy, m.messageText, m.timePostedEpoch⟩

theorem answer_postNewMessage_new (ids : FreshIds) {m : Message} (hId : m.messageId = none)
    (hValid : m.Valid db) :
    ∃ db' : Db, db'.1 = { db.1 with message := db.1.message ++ [newMessage ids db m] } ∧
      answer ids db (.postNewMessage m) =
        (db', ⟨.ok, some (.message (newMessage ids db m).entity)⟩) := by
  obtain ⟨text, hText, -, hShort, poster, hMem, hPoster⟩ := id hValid
  have hSchema : Schema { db.1 with message := db.1.message ++ [newMessage ids db m] } := by
    refine schema_insert_message db (fun q hq => ids.message_fresh _ q hq) ?_ ?_
    · intro u hu
      have hSame : text = u := Option.some.inj (hText.symm.trans hu)
      exact hSame ▸ Nat.le_of_lt hShort
    · intro p hp
      have hSame : poster.accountId = p := Option.some.inj (hPoster.symm.trans hp)
      exact hSame ▸ List.mem_map_of_mem hMem
  have hSave : MessageRepository.save ids db m =
      .ok (⟨_, hSchema⟩, (newMessage ids db m).entity) := by
    unfold MessageRepository.save
    rw [hId]
    dsimp only [Option.filter_none, Option.getD_none]
    exact congrArg (· >>= _) (commit_of_schema hSchema)
  refine ⟨⟨_, hSchema⟩, rfl, ?_⟩
  unfold answer postNewMessage
  dsimp only
  rw [createMessage_valid ids db hValid, hSave]
  rfl

theorem findById_of_find? {found : Option MessageRow}
    (h : db.1.message.find? (·.messageId = id) = found) :
    MessageRepository.findById db id = found.map MessageRow.entity := by
  unfold MessageRepository.findById
  rw [h]

theorem answer_getMessageByMessageId {found : Option MessageRow}
    (h : db.1.message.find? (·.messageId = id) = found) :
    answer ids db (.getMessageByMessageId id) =
      (db, ⟨.ok, found.map fun r => .message r.entity⟩) := by
  unfold answer getMessageByMessageId MessageService.getMessageById
  dsimp only
  rw [findById_of_find? h]
  cases found with
  | none => rfl
  | some r => rfl

theorem answer_deleteMessageById_none (h : db.1.message.find? (·.messageId = id) = none) :
    answer ids db (.deleteMessageById id) = (db, ⟨.ok, none⟩) := by
  unfold answer deleteMessageById MessageService.deleteMessage MessageService.getMessageById
  dsimp only
  rw [findById_of_find? h]
  rfl

theorem answer_deleteMessageById_some (ids : FreshIds) {r : MessageRow}
    (h : db.1.message.find? (·.messageId = id) = some r) :
    ∃ db' : Db, db'.1 = { db.1 with message := db.1.message.filter (·.messageId ≠ id) } ∧
      answer ids db (.deleteMessageById id) = (db', ⟨.ok, some (.number 1)⟩) := by
  have hKey : r.messageId = id := by simpa using List.find?_some h
  have hIds : id ∈ db.1.message.map (·.messageId) :=
    List.mem_map.mpr ⟨r, List.mem_of_find?_eq_some h, hKey⟩
  refine ⟨⟨_, schema_delete_message id⟩, rfl, ?_⟩
  unfold answer deleteMessageById MessageService.deleteMessage MessageService.getMessageById
  dsimp only
  rw [findById_of_find? h]
  dsimp only [Option.map_some]
  rw [MessageRepository.deleteById, if_pos hIds, commit_of_schema (schema_delete_message id)]
  rfl

theorem answer_updateMessage_rejected
    (h : ¬AllowedText text ∨ db.1.message.find? (·.messageId = id) = none) :
    answer ids db (.updateMessage id ⟨none, none, some text, none⟩) =
      (db, ⟨.badRequest, none⟩) := by
  unfold answer updateMessage MessageService.updateMessage
  dsimp only
  by_cases hBad : text.length > 255 ∨ text = []
  · rw [if_pos hBad]
    rfl
  · have hAllowed : AllowedText text := by
      rw [not_or, Nat.not_lt] at hBad
      exact ⟨hBad.2, hBad.1⟩
    rw [if_neg hBad, findById_of_find? (h.resolve_left (not_not_intro hAllowed))]
    rfl

/-- The row with another text. -/
def MessageRow.withText (r : MessageRow) (text : JavaString) : MessageRow :=
  { r with messageText := some text }

/-- `save` changes the text of one row. -/
theorem overwrite_withText {r : MessageRow} (hMem : r ∈ db.1.message) (text : JavaString) :
    overwrite MessageRow.messageId (r.withText text) db.1.message =
      db.1.message.map fun q => if q.messageId = r.messageId then q.withText text else q := by
  unfold overwrite
  apply List.map_congr_left
  intro q hq
  change (if q.messageId = r.messageId then r.withText text else q) = _
  by_cases hSame : q.messageId = r.messageId
  · have hRow : q = r := List.inj_on_of_nodup_map db.2.messageId hq hMem hSame
    rw [hRow]
  · rw [if_neg hSame, if_neg hSame]

theorem answer_updateMessage_found (ids : FreshIds) {r : MessageRow}
    (hText : AllowedText text)
    (h : db.1.message.find? (·.messageId = id) = some r) :
    ∃ db' : Db, db'.1 = { db.1 with
        message := overwrite MessageRow.messageId (r.withText text) db.1.message } ∧
      answer ids db (.updateMessage id ⟨none, none, some text, none⟩) =
        (db', ⟨.ok, some (.number 1)⟩) := by
  have hMem := List.mem_of_find?_eq_some h
  have hMatched : (some r.messageId).filter (· ∈ db.1.message.map (·.messageId)) =
      some r.messageId :=
    Option.filter_eq_some_iff.mpr ⟨rfl, decide_eq_true (List.mem_map_of_mem hMem)⟩
  have hSchema : Schema { db.1 with
      message := overwrite MessageRow.messageId (r.withText text) db.1.message } := by
    refine schema_overwrite_message db ?_ (db.2.postedBy r hMem)
    intro u hu
    cases hu
    exact hText.2
  have hBad : ¬(text.length > 255 ∨ text = []) := by
    rintro (hLong | hBlank)
    · exact Nat.not_lt.mpr hText.2 hLong
    · exact hText.1 hBlank
  refine ⟨⟨_, hSchema⟩, rfl, ?_⟩
  unfold answer updateMessage MessageService.updateMessage
  dsimp only
  rw [if_neg hBad, findById_of_find? h]
  dsimp only [Option.map_some, MessageRow.entity]
  unfold MessageRepository.save
  dsimp only
  rw [hMatched]
  dsimp only [Option.getD_some]
  have hCommit := commit_of_schema hSchema
  unfold MessageRow.withText at hCommit
  rw [hCommit]
  rfl

end Spring

end Windborne
