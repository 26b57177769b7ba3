import Windborne.Javalin.Controller
import Windborne.Spring.Frame

/-!
# Statuses of the user stories

Which requests get a status that their user story allows. The others end with an uncaught
exception: a null field that is used without a check, a path parameter that is no number and
turns into a null result, or a row that does not fit into its table.
-/

namespace Windborne

open Library

/-! ## The Javalin service -/

namespace Javalin

open Spring (JavaString javaString HttpStatus)
open SocialMediaController

/-- The statuses of the user story of a request. -/
def ServiceRequest.statuses : ServiceRequest → List HttpStatus
  | .accounts (.registerUser _) => [.ok, .badRequest]
  | .accounts (.login _) => [.ok, .unauthorized]
  | .messages (.newMessage _) | .messages (.updateMessageGivenMessageId ..) => [.ok, .badRequest]
  | .messages _ => [.ok]

/-- A handler ends without an exception and with one of the statuses. -/
def Documented {σ : Type} (statuses : List HttpStatus) (answer : Throws (Context × σ)) : Prop :=
  ∃ ctx t, answer = .ok (ctx, t) ∧ ctx.status ∈ statuses

/-- The fields that `addAccount` uses are not null. -/
def Account.Given (a : Account) : Prop :=
  a.username ≠ none ∧ (a.username ≠ some [] → a.password ≠ none)

/-- No account with the given username has lost its password. -/
def PasswordStored (rows : List Account) (username : Option JavaString) : Prop :=
  ∀ stored ∈ rows, stored.username = username → username ≠ none → stored.password ≠ none

/-- The requests that are answered with a status of their user story. -/
def Answerable (parseInt : JavaString → Option Int) (s : Store) : ServiceRequest → Prop
  | .accounts (.registerUser body) => ∀ a ∈ body, a.Given
  | .accounts (.login body) => ∃ account ∈ body, PasswordStored s.accounts account.username
  | .messages (.updateMessageGivenMessageId _ body) => body ≠ none
  | .messages (.getAllMessagesFromUserAccountId accountId) => parseInt accountId ≠ none
  | .messages _ => True

section Handlers

variable {env : Platform} {s : Store} {statuses : List HttpStatus}

theorem documented_ok {σ : Type} {ctx : Context} {t : σ} :
    Documented statuses (.ok (ctx, t)) ↔ ctx.status ∈ statuses := by
  constructor
  · rintro ⟨_, _, hEq, hMem⟩
    cases hEq
    exact hMem
  · exact fun hMem => ⟨ctx, t, rfl, hMem⟩

theorem not_documented_error {σ : Type} (e : Thrown) :
    ¬Documented statuses (.error e : Throws (Context × σ)) := by
  rintro ⟨_, _, hEq, _⟩
  cases hEq

/-! ### Accounts -/

/-- `addAccount` throws exactly for a null field that it uses. -/
theorem addAccount_cases (find : JavaString → Option Account) (a : Account) :
    (a.Given ∧ ∃ x, addAccount find (some a) = .ok x) ∨
      ¬a.Given ∧ addAccount find (some a) = .error .nullPointer := by
  obtain ⟨accountId, username, password⟩ := a
  cases username with
  | none => exact Or.inr ⟨fun h => h.1 rfl, rfl⟩
  | some username =>
    by_cases hBlank : username = []
    · subst hBlank
      exact Or.inl ⟨⟨by simp, fun h => absurd rfl h⟩, none, rfl⟩
    have hNotBlank : some username ≠ some [] := fun h => hBlank (Option.some.inj h)
    simp only [addAccount, deref, ok_bind, if_neg hBlank]
    cases password with
    | none => exact Or.inr ⟨fun h => h.2 hNotBlank rfl, rfl⟩
    | some password =>
      refine Or.inl ⟨⟨by simp, by simp⟩, ?_⟩
      simp only [ok_bind]
      split_ifs
      · exact ⟨_, rfl⟩
      · exact ⟨_, rfl⟩
      · exact ⟨_, rfl⟩

theorem documented_register {body : Option Account} :
    Documented [.ok, .badRequest] (registerUserHandler env s body) ↔ ∀ a ∈ body, a.Given := by
  unfold registerUserHandler
  cases body with
  | none => exact iff_of_true (documented_ok.mpr (by decide)) nofun
  | some a =>
    have hBody : (∀ b ∈ some a, b.Given) ↔ a.Given := by simp
    rw [hBody]
    rcases addAccount_cases (fun u => getAccountByUsername s.accounts u) a with
      ⟨hGiven, x, hRun⟩ | ⟨hNot, hRun⟩
    · refine iff_of_true ?_ hGiven
      rw [hRun, passOn, ok_bind]
      cases x with
      | none => exact documented_ok.mpr (by decide)
      | some a =>
        dsimp only
        rcases env.executeUpdate s (insertAccountSql a) with ⟨_ | key, t⟩
        · exact documented_ok.mpr (by decide)
        · exact documented_ok.mpr List.mem_cons_self
    · rw [hRun]
      exact iff_of_false (not_documented_error _) hNot

theorem mem_of_getAccountByUsername {rows : List Account} {a : Account}
    {username : Option JavaString} (h : getAccountByUsername rows username = some a) :
    a ∈ rows ∧ a.username = username ∧ username ≠ none := by
  cases username with
  | none => cases h
  | some u =>
    have hFound : rows.find? (·.username = some u) = some a := h
    exact ⟨List.mem_of_find?_eq_some hFound,
      by simpa using List.find?_some hFound, nofun⟩

/-- `verifyAccount` throws exactly when the stored password is null. -/
theorem verifyAccount_cases (username password : Option JavaString) :
    (PasswordStored s.accounts username ∧
      ∃ x, verifyAccount s.accounts username password = .ok x) ∨
    ¬PasswordStored s.accounts username ∧
      verifyAccount s.accounts username password = .error .nullPointer := by
  unfold verifyAccount
  cases hFound : getAccountByUsername s.accounts username with
  | none =>
    refine Or.inl ⟨?_, none, rfl⟩
    intro stored hMem hSame hGiven
    cases username with
    | none => exact absurd rfl hGiven
    | some u =>
      have hNone : s.accounts.find? (·.username = some u) = none := hFound
      exact absurd (decide_eq_true hSame) (List.find?_eq_none.mp hNone stored hMem)
  | some a =>
    obtain ⟨hMem, hSame, hGiven⟩ := mem_of_getAccountByUsername hFound
    obtain ⟨u, hUser⟩ := Option.ne_none_iff_exists'.mp hGiven
    cases hPass : a.password with
    | none =>
      refine Or.inr ⟨fun h => h a hMem hSame hGiven hPass, ?_⟩
      dsimp only
      rw [hPass]
      rfl
    | some stored =>
      refine Or.inl ⟨?_, ?_⟩
      · intro b hb hSameB _
        rw [eq_of_nodup_filterMap s.usernames hb hMem (hSameB.trans hUser) (hSame.trans hUser),
          hPass]
        exact Option.some_ne_none _
      · simp only [hPass, deref, ok_bind]
        split_ifs
        · exact ⟨_, rfl⟩
        · exact ⟨_, rfl⟩

theorem documented_login {body : Option Account} :
    Documented [.ok, .unauthorized] (loginHandler s body) ↔
      ∃ account ∈ body, PasswordStored s.accounts account.username := by
  unfold loginHandler
  cases body with
  | none => exact iff_of_false (not_documented_error .nullPointer) nofun
  | some account =>
    have hBody : (∃ b ∈ some account, PasswordStored s.accounts b.username) ↔
        PasswordStored s.accounts account.username := by simp
    rw [hBody]
    dsimp only
    rcases verifyAccount_cases (s := s) account.username account.password with
      ⟨hStored, x, hRun⟩ | ⟨hNot, hRun⟩
    · refine iff_of_true ?_ hStored
      rw [hRun, passOn, ok_bind]
      cases x with
      | none => exact documented_ok.mpr (by decide)
      | some a => exact documented_ok.mpr List.mem_cons_self
    · rw [hRun]
      exact iff_of_false (not_documented_error _) hNot

/-! ### Messages -/

/-- A message request gets one of the statuses exactly if `serve` says so. -/
theorem documented_messages {r : Request} :
    Documented statuses (handle env s (.messages r)) ↔
      ∃ ctx ∈ (s.messages.serve ⟨s.accounts.map Account.accountId, env.parseInt⟩ env.messageKey
        r).1.context, ctx.status ∈ statuses := by
  unfold handle
  dsimp only
  rw [handleMessages_eq]
  cases hCtx : (s.messages.serve ⟨s.accounts.map Account.accountId, env.parseInt⟩ env.messageKey
    r).1.context with
  | none => exact iff_of_false (not_documented_error _) nofun
  | some ctx =>
    refine documented_ok.trans ?_
    simp

/-- `null` is the one body that `updateMessageById` throws for. -/
theorem documented_updateMessage {messageId : JavaString} {body : Option Message} :
    Documented [.ok, .badRequest]
      (handle env s (.messages (.updateMessageGivenMessageId messageId body))) ↔ body ≠ none := by
  rw [documented_messages]
  cases body with
  | none => exact iff_of_false nofun fun h => h rfl
  | some temp =>
    refine iff_of_true ?_ nofun
    simp only [MessageTable.serve]
    rcases s.messages.updateMessageById _ messageId temp.messageText with ⟨_ | m, t⟩
    · exact ⟨_, rfl, List.mem_cons_of_mem _ List.mem_cons_self⟩
    · exact ⟨_, rfl, List.mem_cons_self⟩

theorem documented_getAllMessagesFromUser {accountId : JavaString} :
    Documented [.ok] (handle env s (.messages (.getAllMessagesFromUserAccountId accountId))) ↔
      env.parseInt accountId ≠ none := by
  rw [documented_messages]
  simp only [MessageTable.serve, MessageTable.getMessagesFromUserId]
  cases env.parseInt accountId with
  | none =>
    refine iff_of_false ?_ (not_not_intro rfl)
    rintro ⟨_, hCtx, _⟩
    cases hCtx
  | some id => exact iff_of_true ⟨_, rfl, List.mem_cons_self⟩ (Option.some_ne_none id)

/-- **The Javalin service.** -/
theorem handle_documented_iff (env : Platform) (s : Store) (r : ServiceRequest) :
    Documented r.statuses (handle env s r) ↔ Answerable env.parseInt s r := by
  cases r with
  | accounts r =>
    cases r with
    | registerUser body => exact documented_register
    | login body => exact documented_login
  | messages r =>
    cases r with
    | newMessage body =>
      refine iff_of_true (documented_messages.mpr ?_) trivial
      simp only [MessageTable.serve]
      rcases s.messages.addMessage _ env.messageKey body with ⟨_ | m, t⟩
      · exact ⟨_, rfl, List.mem_cons_of_mem _ List.mem_cons_self⟩
      · exact ⟨_, rfl, List.mem_cons_self⟩
    | getAllMessages =>
      exact iff_of_true (documented_messages.mpr ⟨_, rfl, List.mem_cons_self⟩) trivial
    | getMessageById messageId =>
      refine iff_of_true (documented_messages.mpr ?_) trivial
      simp only [MessageTable.serve]
      cases env.parseInt messageId with
      | none => exact ⟨_, rfl, List.mem_cons_self⟩
      | some id =>
        dsimp only
        cases getMessageById s.messages.rows id with
        | none => exact ⟨_, rfl, List.mem_cons_self⟩
        | some m => exact ⟨_, rfl, List.mem_cons_self⟩
    | deleteMessageById messageId =>
      refine iff_of_true (documented_messages.mpr ?_) trivial
      simp only [MessageTable.serve]
      cases env.parseInt messageId with
      | none => exact ⟨_, rfl, List.mem_cons_self⟩
      | some id =>
        dsimp only
        rcases s.messages.deleteMessageById id with ⟨_ | m, t⟩
        · exact ⟨_, rfl, List.mem_cons_self⟩
        · exact ⟨_, rfl, List.mem_cons_self⟩
    | updateMessageGivenMessageId messageId body => exact documented_updateMessage
    | getAllMessagesFromUserAccountId accountId => exact documented_getAllMessagesFromUser

end Handlers

end Javalin

/-! ## The Spring service -/

namespace Spring

inductive Request where
  | registration (a : Account)
  | login (a : Account)
  | postNewMessage (m : Message)
  | getAllMessages
  | getMessageByMessageId (id : Int)
  | deleteMessageById (id : Int)
  | updateMessage (id : Int) (m : Message)
  | getAllMessagesByUser (id : Int)

/-- The statuses of the user story of a request. -/
def Request.statuses : Request → List HttpStatus
  | .registration _ => [.ok, .badRequest, .conflict]
  | .login _ => [.ok, .unauthorized]
  | .postNewMessage _ | .updateMessage .. => [.ok, .badRequest]
  | _ => [.ok]

/-- The status of the answer. -/
def status (ids : FreshIds) (db : Db) : Request → HttpStatus
  | .registration a => (SocialMediaController.registration ids db a).2.status
  | .login a => (SocialMediaController.login db a).2.status
  | .postNewMessage m => (SocialMediaController.postNewMessage ids db m).2.status
  | .getAllMessages => (SocialMediaController.getAllMessages db).2.status
  | .getMessageByMessageId id => (SocialMediaController.getMessageByMessageId db id).2.status
  | .deleteMessageById id => (SocialMediaController.deleteMessageById db id).2.status
  | .updateMessage id m => (SocialMediaController.updateMessage ids db id m).2.status
  | .getAllMessagesByUser id => (SocialMediaController.getAllMessagesByUser db id).2.status

/-- No account with the given username has lost its password. -/
def PasswordStored (db : Db) (username : Option JavaString) : Prop :=
  ∀ r ∈ db.1.account, username = some r.username → username ≠ some [] → r.password ≠ none

/-- The requests that are answered with a status of their user story. -/
def Answerable (db : Db) : Request → Prop
  | .registration a => a.Given ∧ (a.Valid → ¬UsernameTaken db a → a.Fits)
  | .login a => PasswordStored db a.username
  | .postNewMessage m => m.Given
  | .updateMessage _ m => m.messageText ≠ none
  | _ => True

variable {ids : FreshIds} {db : Db}

theorem schema_insert_account (db : Db) {r : AccountRow}
    (hId : ∀ q ∈ db.1.account, q.accountId ≠ r.accountId)
    (hFree : ∀ q ∈ db.1.account, q.username ≠ r.username) (hName : Varchar r.username)
    (hPassword : ∀ p ∈ r.password, Varchar p) :
    Schema { db.1 with account := db.1.account ++ [r] } where
  accountId := nodup_map_snoc_iff.mpr ⟨db.2.accountId, hId⟩
  username := nodup_map_snoc_iff.mpr ⟨db.2.username, hFree⟩
  accountWidth := forall_mem_snoc db.2.accountWidth ⟨hName, hPassword⟩
  messageId := db.2.messageId
  messageWidth := db.2.messageWidth
  postedBy := by
    intro q hq id hMem
    rw [List.map_append]
    exact List.mem_append_left _ (db.2.postedBy q hq id hMem)

theorem schema_insert_message (db : Db) {r : MessageRow}
    (hId : ∀ q ∈ db.1.message, q.messageId ≠ r.messageId)
    (hText : ∀ text ∈ r.messageText, Varchar text)
    (hPoster : ∀ id ∈ r.postedBy, id ∈ db.1.account.map (·.accountId)) :
    Schema { db.1 with message := db.1.message ++ [r] } where
  accountId := db.2.accountId
  username := db.2.username
  accountWidth := db.2.accountWidth
  messageId := nodup_map_snoc_iff.mpr ⟨db.2.messageId, hId⟩
  messageWidth := forall_mem_snoc db.2.messageWidth hText
  postedBy := forall_mem_snoc db.2.postedBy hPoster

theorem schema_delete_message (id : Int) :
    Schema { db.1 with message := db.1.message.filter (·.messageId ≠ id) } where
  accountId := db.2.accountId
  username := db.2.username
  accountWidth := db.2.accountWidth
  messageId := db.2.messageId.sublist (List.filter_sublist.map _)
  messageWidth q hq := db.2.messageWidth q (List.mem_of_mem_filter hq)
  postedBy q hq := db.2.postedBy q (List.mem_of_mem_filter hq)

theorem internalServerError_not_mem (r : Request) : .internalServerError ∉ r.statuses := by
  cases r with
  | registration _ | login _ | postNewMessage _ | getAllMessages | getMessageByMessageId _
  | deleteMessageById _ | updateMessage _ _ | getAllMessagesByUser _ => simp [Request.statuses]

/-- With a free username, `save` fails only for a text that is too long. -/
theorem save_iff (ids : FreshIds) {a : Account} {username : JavaString}
    (hName : a.username = some username) (hFree : ¬UsernameTaken db a) :
    (∃ db' saved, AccountRepository.save ids db a = .ok (db', saved)) ↔ a.Fits := by
  by_cases hId : AccountIdMatches db a
  · obtain ⟨hOk, hError⟩ := save_overwrites ids hName hId hFree
    by_cases hFits : a.Fits
    · obtain ⟨db', saved, hRun, -⟩ := hOk hFits
      exact iff_of_true ⟨db', saved, hRun⟩ hFits
    · obtain ⟨e, hRun⟩ := hError hFits
      refine iff_of_false ?_ hFits
      rintro ⟨db', saved, hSaved⟩
      rw [hRun] at hSaved
      cases hSaved
  · unfold AccountRepository.save
    rw [hName, filter_keys_eq_none hId]
    dsimp only [Option.getD_none]
    constructor
    · rintro ⟨db', saved, hRun⟩
      obtain ⟨committed, hCommit, -⟩ := bind_eq_ok.mp hRun
      have hSchema := committed.2
      rw [commit_ok hCommit] at hSchema
      obtain ⟨h1, h2⟩ := hSchema.accountWidth _ List.mem_concat_self
      refine ⟨?_, h2⟩
      intro u hu
      rw [Option.mem_def, hName] at hu
      cases hu
      exact h1
    · intro hFits
      have hSchema := schema_insert_account db
        (r := ⟨ids.account db.1.account, username, a.password⟩)
        (fun q hq => ids.account_fresh _ q hq)
        (fun q hq hEq => hFree ⟨q, hq, hName.trans (congrArg some hEq.symm)⟩)
        (hFits.1 username hName) hFits.2
      rw [commit_of_schema hSchema]
      exact ⟨_, _, rfl⟩

/-- `save` takes every message that `createMessage` passes on. -/
theorem saveMessage_valid (ids : FreshIds) {m : Message} (h : m.Valid db) :
    ∃ db' saved, MessageRepository.save ids db m = .ok (db', saved) := by
  by_cases hId : MessageIdMatches db m
  · obtain ⟨db', saved, hRun, -⟩ := saveMessage_overwrites ids h hId
    exact ⟨db', saved, hRun⟩
  · obtain ⟨text, hText, -, hLength, poster, hMem, hPoster⟩ := h
    unfold MessageRepository.save
    rw [filter_keys_eq_none hId]
    have hSchema := schema_insert_message db
      (r := ⟨ids.message db.1.message, m.postedBy, m.messageText, m.timePostedEpoch⟩)
      (fun q hq => ids.message_fresh _ q hq)
      (by
        intro u hu
        rw [Option.mem_def, hText] at hu
        cases hu
        exact Nat.le_of_lt hLength)
      (by
        intro p hp
        rw [Option.mem_def, hPoster] at hp
        cases hp
        exact List.mem_map_of_mem hMem)
    dsimp only [Option.getD_none]
    rw [commit_of_schema hSchema]
    exact ⟨_, _, rfl⟩

theorem Account.Valid.given {a : Account} (h : a.Valid) : a.Given := by
  obtain ⟨username, password, hName, hPassword, -⟩ := h
  unfold Account.Given
  rw [hName, hPassword]
  exact ⟨Option.some_ne_none _, fun _ => Option.some_ne_none _⟩

theorem Message.Valid.given {m : Message} (h : m.Valid db) : m.Given := by
  obtain ⟨text, -, -, -, r, -, hPoster⟩ := h
  intro _ _ _ _
  rw [hPoster]
  exact Option.some_ne_none _

theorem registration_status_iff (ids : FreshIds) (db : Db) (a : Account) :
    (SocialMediaController.registration ids db a).2.status ∈ [.ok, .badRequest, .conflict] ↔
      a.Given ∧ (a.Valid → ¬UsernameTaken db a → a.Fits) := by
  unfold SocialMediaController.registration
  by_cases hValid : a.Valid
  · classical
    rw [register_valid ids db hValid]
    by_cases hTaken : UsernameTaken db a
    · rw [if_pos hTaken, ok_bind]
      dsimp only
      refine iff_of_true ?_ ⟨hValid.given, fun _ hFree => absurd hTaken hFree⟩
      split_ifs
      · exact List.mem_cons_of_mem _ (List.mem_cons_of_mem _ List.mem_cons_self)
      · exact List.mem_cons_self
    · rw [if_neg hTaken]
      obtain ⟨username, password, hName, -⟩ := id hValid
      have hSaves := save_iff ids hName hTaken
      cases hSave : AccountRepository.save ids db a with
      | error e =>
        refine iff_of_false (internalServerError_not_mem (.registration a)) ?_
        intro hFits
        obtain ⟨db', saved, hOk⟩ := hSaves.mpr (hFits.2 hValid hTaken)
        rw [hSave] at hOk
        cases hOk
      | ok answer =>
        obtain ⟨db', saved⟩ := answer
        simp only [ok_bind, pure_eq_ok]
        rw [if_neg (save_accountId hSave)]
        exact iff_of_true List.mem_cons_self
          ⟨hValid.given, fun _ _ => hSaves.mp ⟨db', saved, hSave⟩⟩
  · rcases register_invalid ids db hValid with ⟨hGiven, hRun⟩ | ⟨hNot, hRun⟩
    · rw [hRun]
      exact iff_of_true (List.mem_cons_of_mem _ List.mem_cons_self)
        ⟨hGiven, fun h => absurd h hValid⟩
    · rw [hRun]
      exact iff_of_false (internalServerError_not_mem (.registration a)) fun h => hNot h.1

theorem login_status_iff (db : Db) (a : Account) :
    (SocialMediaController.login db a).2.status ∈ [.ok, .unauthorized] ↔
      PasswordStored db a.username := by
  unfold SocialMediaController.login AccountService.login
  cases hName : a.username with
  | none =>
    simp only [hName]
    exact iff_of_true (List.mem_cons_of_mem _ List.mem_cons_self) nofun
  | some username =>
    simp only [hName]
    by_cases hBlank : username = []
    · rw [if_pos hBlank, hBlank]
      exact iff_of_true (List.mem_cons_of_mem _ List.mem_cons_self)
        fun _ _ _ hNot => absurd rfl hNot
    · rw [if_neg hBlank]
      have hGiven : some username ≠ some [] := fun hEq => hBlank (Option.some.inj hEq)
      unfold AccountRepository.findByUsername
      cases hFound : db.1.account.find? (·.username = username) with
      | none =>
        refine iff_of_true (List.mem_cons_of_mem _ List.mem_cons_self) ?_
        intro r hr hSame
        have hNot := List.find?_eq_none.mp hFound r hr
        exact absurd (decide_eq_true (Option.some.inj hSame).symm) hNot
      | some r =>
        have hMem := List.mem_of_find?_eq_some hFound
        have hUser : r.username = username := by simpa using List.find?_some hFound
        simp only [Option.map_some, AccountRow.entity]
        cases hPassword : r.password with
        | none =>
          refine iff_of_false (internalServerError_not_mem (.login a)) ?_
          intro hStored
          exact hStored r hMem (congrArg some hUser.symm) hGiven hPassword
        | some password =>
          refine iff_of_true ?_ ?_
          · dsimp only
            split_ifs
            · exact List.mem_cons_self
            · exact List.mem_cons_of_mem _ List.mem_cons_self
          · intro q hq hSame _
            have hSame' : q.username = r.username := by
              rw [hUser]
              exact (Option.some.inj hSame).symm
            rw [List.inj_on_of_nodup_map db.2.username hq hMem hSame', hPassword]
            exact Option.some_ne_none _

theorem postNewMessage_status_iff (ids : FreshIds) (db : Db) (m : Message) :
    (SocialMediaController.postNewMessage ids db m).2.status ∈ [.ok, .badRequest] ↔ m.Given := by
  unfold SocialMediaController.postNewMessage
  by_cases hValid : m.Valid db
  · rw [createMessage_valid ids db hValid]
    refine iff_of_true ?_ hValid.given
    obtain ⟨db', saved, hSave⟩ := saveMessage_valid ids hValid
    rw [hSave]
    exact List.mem_cons_self
  · rcases createMessage_invalid ids db hValid with ⟨hGiven, hRun⟩ | ⟨hNot, hRun⟩
    · rw [hRun]
      exact iff_of_true (List.mem_cons_of_mem _ List.mem_cons_self) hGiven
    · rw [hRun]
      exact iff_of_false (internalServerError_not_mem (.postNewMessage m)) hNot

theorem exists_row_of_findById {id : Int} {temp : Message}
    (h : MessageRepository.findById db id = some temp) :
    ∃ r ∈ db.1.message, r.messageId = id ∧ r.entity = temp := by
  obtain ⟨r, hFound, hEntity⟩ := Option.map_eq_some_iff.mp h
  exact ⟨r, List.mem_of_find?_eq_some hFound, by simpa using List.find?_some hFound, hEntity⟩

theorem deleteMessageById_status (db : Db) (id : Int) :
    (SocialMediaController.deleteMessageById db id).2.status = .ok := by
  unfold SocialMediaController.deleteMessageById MessageService.deleteMessage
    MessageService.getMessageById
  cases hFound : MessageRepository.findById db id with
  | none => rfl
  | some temp =>
    obtain ⟨r, hMem, hId, -⟩ := exists_row_of_findById hFound
    have hIds : id ∈ db.1.message.map (·.messageId) := List.mem_map.mpr ⟨r, hMem, hId⟩
    dsimp only
    rw [MessageRepository.deleteById, if_pos hIds, commit_of_schema (schema_delete_message id)]
    rfl

/-- A stored message can be saved with another text that fits. -/
theorem save_text (ids : FreshIds) {r : MessageRow} (hMem : r ∈ db.1.message) {text : JavaString}
    (hText : Varchar text) :
    ∃ db' saved, MessageRepository.save ids db
      ⟨r.messageId, r.postedBy, text, r.timePostedEpoch⟩ = .ok (db', saved) := by
  have hIds : r.messageId ∈ db.1.message.map (·.messageId) := List.mem_map_of_mem hMem
  have hMatched : (some r.messageId).filter (· ∈ db.1.message.map (·.messageId)) =
      some r.messageId := Option.filter_eq_some_iff.mpr ⟨rfl, decide_eq_true hIds⟩
  have hSchema := schema_overwrite_message db
    (r := ⟨r.messageId, r.postedBy, some text, r.timePostedEpoch⟩)
    (by
      intro u hu
      cases hu
      exact hText)
    (db.2.postedBy r hMem)
  unfold MessageRepository.save
  dsimp only
  rw [hMatched]
  dsimp only [Option.getD_some]
  rw [commit_of_schema hSchema]
  exact ⟨_, _, rfl⟩

theorem updateMessage_status_iff (ids : FreshIds) (db : Db) (id : Int) (m : Message) :
    (SocialMediaController.updateMessage ids db id m).2.status ∈ [.ok, .badRequest] ↔
      m.messageText ≠ none := by
  unfold SocialMediaController.updateMessage MessageService.updateMessage
  cases hText : m.messageText with
  | none =>
    dsimp only
    exact iff_of_false (internalServerError_not_mem (.updateMessage id m)) fun h => h rfl
  | some text =>
    dsimp only
    refine iff_of_true ?_ (Option.some_ne_none _)
    by_cases hLength : text.length > 255 ∨ text = []
    · rw [if_pos hLength]
      exact List.mem_cons_of_mem _ List.mem_cons_self
    · rw [if_neg hLength]
      rw [not_or, Nat.not_lt] at hLength
      cases hFound : MessageRepository.findById db id with
      | none => exact List.mem_cons_of_mem _ List.mem_cons_self
      | some temp =>
        obtain ⟨r, hMem, -, rfl⟩ := exists_row_of_findById hFound
        obtain ⟨db', saved, hSave⟩ := save_text ids hMem hLength.1
        dsimp only [MessageRow.entity]
        rw [hSave]
        exact List.mem_cons_self

/-- **The Spring service.** -/
theorem status_documented_iff (ids : FreshIds) (db : Db) (r : Request) :
    status ids db r ∈ r.statuses ↔ Answerable db r := by
  cases r with
  | registration a => exact registration_status_iff ids db a
  | login a => exact login_status_iff db a
  | postNewMessage m => exact postNewMessage_status_iff ids db m
  | getAllMessages | getMessageByMessageId _ | getAllMessagesByUser _ =>
    exact iff_of_true List.mem_cons_self trivial
  | deleteMessageById id =>
    refine iff_of_true ?_ trivial
    rw [status, deleteMessageById_status]
    exact List.mem_cons_self
  | updateMessage id m => exact updateMessage_status_iff ids db id m

end Spring

/-- **Statuses.** A request to one of the two services gets a status of its user story, without
an uncaught exception, exactly if it is answerable. -/
theorem documented_statuses_iff (env : Javalin.Platform) (s : Javalin.Store)
    (r : Javalin.ServiceRequest) (ids : Spring.FreshIds) (db : Spring.Db) (q : Spring.Request) :
    (Javalin.Documented r.statuses (Javalin.SocialMediaController.handle env s r) ↔
      Javalin.Answerable env.parseInt s r) ∧
    (Spring.status ids db q ∈ q.statuses ↔ Spring.Answerable db q) :=
  ⟨Javalin.handle_documented_iff env s r, Spring.status_documented_iff ids db q⟩

/-- `{"password": "secret"}` -/
def noUsername : Javalin.Account := ⟨0, none, some (Spring.javaString "secret")⟩

/-- The Javalin service fails to register an account without a username, and the Spring service
to update a message without a text. -/
theorem null_fields_undocumented :
    (∀ env s, ¬Javalin.Documented [.ok, .badRequest]
      (Javalin.SocialMediaController.handle env s (.accounts (.registerUser noUsername)))) ∧
    Spring.status Spring.nextIds Spring.oneUser (.updateMessage 9999 ⟨none, none, none, none⟩) ∉
      [.ok, .badRequest] :=
  ⟨fun _ _ => Javalin.not_documented_error .nullPointer, by decide⟩

end Windborne
