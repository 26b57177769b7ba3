import Windborne.Library.Results
import Windborne.Spring.Service

/-!
# What the two POST endpoints do to the rows that exist

The checks of `register` and `createMessage` do not look at the id in the body, and `save`
overwrites the row of an id that exists. So the endpoints leave the existing rows alone
exactly for the bodies described by `RegisterSafe` and `PostSafe`: those that are rejected,
and those whose id is null or matches no row. A taken username needs a null id too, because
the handler takes any other id for a success.
-/

namespace Windborne.Spring

open Library SocialMediaController

/-! ## The frame of a request -/

/-- Every row of `db` is a row of `db'`. -/
def KeepsRows (db db' : Db) : Prop :=
  (∀ r ∈ db.1.account, r ∈ db'.1.account) ∧ ∀ r ∈ db.1.message, r ∈ db'.1.message

/-- One row with an unused id is new; nothing else changes. -/
inductive AddsRow (db db' : Db) : Prop
  | account (r : AccountRow) (unused : r.accountId ∉ db.1.account.map (·.accountId))
      (appended : db'.1 = { db.1 with account := db.1.account ++ [r] })
  | message (r : MessageRow) (unused : r.messageId ∉ db.1.message.map (·.messageId))
      (appended : db'.1 = { db.1 with message := db.1.message ++ [r] })

/-- No row is changed or removed, a success adds exactly one row, and any other answer
leaves the database as it was. -/
structure LeavesRowsAlone {α : Type} (db : Db) (answer : Answer α) : Prop where
  keepsRows : KeepsRows db answer.1
  success : answer.2.status = .ok → AddsRow db answer.1
  failure : answer.2.status ≠ .ok → answer.1 = db

/-- The number of rows in both tables. -/
def rowCount (db : Db) : Nat := db.1.account.length + db.1.message.length

theorem AddsRow.rowCount {db db' : Db} (h : AddsRow db db') : rowCount db' = rowCount db + 1 := by
  unfold Spring.rowCount
  cases h with
  | account r _ appended =>
    rw [appended]
    simp only [List.length_append, List.length_singleton]
    omega
  | message r _ appended =>
    rw [appended]
    simp only [List.length_append, List.length_singleton]
    omega

theorem AddsRow.keepsRows {db db' : Db} (h : AddsRow db db') : KeepsRows db db' := by
  unfold KeepsRows
  cases h with
  | account r _ appended =>
    rw [appended]
    exact ⟨fun _ hr => List.mem_append_left _ hr, fun _ hr => hr⟩
  | message r _ appended =>
    rw [appended]
    exact ⟨fun _ hr => hr, fun _ hr => List.mem_append_left _ hr⟩

section Answers

variable {α : Type} {db db' : Db} {status : HttpStatus} {body : Option α}

theorem leavesRowsAlone_unchanged (h : status ≠ .ok) :
    LeavesRowsAlone db (db, (⟨status, body⟩ : ResponseEntity α)) where
  keepsRows := ⟨fun _ hr => hr, fun _ hr => hr⟩
  success hOk := absurd hOk h
  failure _ := rfl

theorem leavesRowsAlone_added (h : AddsRow db db') :
    LeavesRowsAlone db (db', (⟨.ok, body⟩ : ResponseEntity α)) where
  keepsRows := h.keepsRows
  success _ := h
  failure hNot := absurd rfl hNot

/-- A success that leaves the number of rows as it was is no success. -/
theorem not_leavesRowsAlone (h : rowCount db' = rowCount db) :
    ¬ LeavesRowsAlone db (db', (⟨.ok, body⟩ : ResponseEntity α)) := by
  intro hAlone
  have hCount := (hAlone.success rfl).rowCount
  rw [h] at hCount
  omega

end Answers

theorem commit_ok {t : Tables} {db : Db} (h : commit t = .ok db) : db.1 = t := by
  unfold commit at h
  split at h
  · cases h
    rfl
  · cases h

theorem commit_of_schema {t : Tables} (h : Schema t) : commit t = .ok ⟨t, h⟩ := dif_pos h

/-! ## Registration -/

/-- The checks on the body that `register` makes. -/
def Account.Valid (a : Account) : Prop :=
  ∃ username password, a.username = some username ∧ a.password = some password ∧
    username ≠ [] ∧ 4 ≤ password.length

/-- The fields that `register` uses are not null. -/
def Account.Given (a : Account) : Prop :=
  a.username ≠ none ∧ (a.username ≠ some [] → a.password ≠ none)

def UsernameTaken (db : Db) (a : Account) : Prop :=
  ∃ r ∈ db.1.account, a.username = some r.username

def AccountIdMatches (db : Db) (a : Account) : Prop :=
  ∃ r ∈ db.1.account, a.accountId = some r.accountId

/-- The texts fit into their columns. -/
def Account.Fits (a : Account) : Prop :=
  (∀ u ∈ a.username, Varchar u) ∧ ∀ p ∈ a.password, Varchar p

/-- The bodies for which `POST /register` leaves the existing rows alone. -/
def RegisterSafe (db : Db) (a : Account) : Prop :=
  a.Valid → (UsernameTaken db a → a.accountId = none) ∧
    (¬ UsernameTaken db a → AccountIdMatches db a → ¬ a.Fits)

theorem findByUsername_isSome {db : Db} {a : Account} {username : JavaString}
    (h : a.username = some username) :
    (AccountRepository.findByUsername db username).isSome ↔ UsernameTaken db a := by
  unfold AccountRepository.findByUsername UsernameTaken
  rw [Option.isSome_map, List.find?_isSome, h]
  simp only [decide_eq_true_eq, Option.some.injEq]
  exact exists_congr fun r => and_congr_right fun _ => eq_comm

/-- With a null id or one that matches no row, `save` can only add a row. -/
theorem save_inserts {ids : FreshIds} {db db' : Db} {a saved : Account}
    (hId : ¬ AccountIdMatches db a)
    (h : AccountRepository.save ids db a = .ok (db', saved)) : AddsRow db db' := by
  unfold AccountRepository.save at h
  rw [filter_keys_eq_none hId] at h
  cases hName : a.username with
  | none =>
    rw [hName] at h
    cases h
  | some username =>
    rw [hName] at h
    obtain ⟨committed, hCommit, hPair⟩ := bind_eq_ok.mp h
    cases hPair
    refine .account _ ?_ (commit_ok hCommit)
    intro hMem
    obtain ⟨r, hr, hEq⟩ := List.mem_map.mp hMem
    exact ids.account_fresh _ r hr hEq

/-- The tables stay within their constraints when a row gets a free username and texts that
fit. -/
theorem schema_overwrite_account (db : Db) {r : AccountRow}
    (hFree : ∀ q ∈ db.1.account, q.username ≠ r.username) (hName : Varchar r.username)
    (hPassword : ∀ p ∈ r.password, Varchar p) :
    Schema { db.1 with account := overwrite AccountRow.accountId r db.1.account } where
  accountId := by
    rw [map_key_overwrite]
    exact db.2.accountId
  username := nodup_map_overwrite db.2.accountId db.2.username hFree
  accountWidth := forall_mem_overwrite ⟨hName, hPassword⟩ db.2.accountWidth
  messageId := db.2.messageId
  messageWidth := db.2.messageWidth
  postedBy := by
    rw [map_key_overwrite]
    exact db.2.postedBy

/-- With the id of a row, `save` overwrites that row, unless a text is too long. -/
theorem save_overwrites (ids : FreshIds) {db : Db} {a : Account} {username : JavaString}
    (hName : a.username = some username) (hId : AccountIdMatches db a)
    (hFree : ¬ UsernameTaken db a) :
    (a.Fits → ∃ db' saved, AccountRepository.save ids db a = .ok (db', saved) ∧
      rowCount db' = rowCount db) ∧
    (¬ a.Fits → ∃ e, AccountRepository.save ids db a = .error e) := by
  obtain ⟨id, hSome⟩ := filter_keys_iff.mpr hId
  have hMem : id ∈ db.1.account.map (·.accountId) := by
    simpa using (Option.filter_eq_some_iff.mp hSome).2
  unfold AccountRepository.save
  rw [hName, hSome]
  dsimp only [Option.getD_some]
  constructor
  · intro hFits
    have hSchema := schema_overwrite_account db (r := ⟨id, username, a.password⟩)
      (fun q hq hEq => hFree ⟨q, hq, hName.trans (congrArg some hEq.symm)⟩)
      (hFits.1 username hName) hFits.2
    rw [commit_of_schema hSchema]
    refine ⟨_, _, rfl, ?_⟩
    unfold rowCount
    rw [length_overwrite]
  · intro hWide
    refine ⟨.dataIntegrityViolation, ?_⟩
    have hNot : ¬ Schema { db.1 with
        account := overwrite AccountRow.accountId ⟨id, username, a.password⟩ db.1.account } := by
      intro hSchema
      obtain ⟨h1, h2⟩ := hSchema.accountWidth _ (mem_overwrite_self hMem)
      apply hWide
      refine ⟨?_, h2⟩
      intro u hu
      rw [Option.mem_def, hName] at hu
      cases hu
      exact h1
    rw [commit, dif_neg hNot]
    rfl

theorem save_accountId {ids : FreshIds} {db db' : Db} {a saved : Account}
    (h : AccountRepository.save ids db a = .ok (db', saved)) : saved.accountId ≠ none := by
  unfold AccountRepository.save at h
  cases hName : a.username with
  | none =>
    rw [hName] at h
    cases h
  | some username =>
    rw [hName] at h
    obtain ⟨committed, -, hPair⟩ := bind_eq_ok.mp h
    cases hPair
    exact Option.some_ne_none _

/-- A body that is not valid is rejected, unless a field that `register` uses is null. -/
theorem register_invalid (ids : FreshIds) (db : Db) {a : Account} (h : ¬ a.Valid) :
    (a.Given ∧ AccountService.register ids db (some a) = .ok (db, none)) ∨
      ¬ a.Given ∧ AccountService.register ids db (some a) = .error .nullPointer := by
  unfold AccountService.register Account.Given
  cases hName : a.username with
  | none =>
    simp only [hName]
    exact Or.inr ⟨fun hGiven => hGiven.1 rfl, rfl⟩
  | some username =>
    simp only [hName]
    by_cases hBlank : username = []
    · rw [if_pos hBlank, hBlank]
      exact Or.inl ⟨⟨Option.some_ne_none _, fun hNot => absurd rfl hNot⟩, rfl⟩
    · rw [if_neg hBlank]
      cases hPassword : a.password with
      | none =>
        refine Or.inr ⟨fun hGiven => hGiven.2 ?_ rfl, rfl⟩
        exact fun hEq => hBlank (Option.some.inj hEq)
      | some password =>
        dsimp only
        rw [if_pos]
        · exact Or.inl ⟨⟨Option.some_ne_none _, fun _ => Option.some_ne_none _⟩, rfl⟩
        · by_contra hLong
          exact h ⟨username, password, hName, hPassword, hBlank, by omega⟩

theorem register_valid (ids : FreshIds) (db : Db) {a : Account} (h : a.Valid)
    [Decidable (UsernameTaken db a)] :
    AccountService.register ids db (some a) =
      if UsernameTaken db a then .ok (db, some a)
      else do
        let (db, saved) ← AccountRepository.save ids db a
        return (db, some saved) := by
  obtain ⟨username, password, hName, hPassword, hBlank, hLength⟩ := h
  unfold AccountService.register
  simp only [hName, hPassword]
  rw [if_neg hBlank, if_neg (by omega), if_congr (findByUsername_isSome hName) rfl rfl]
  rfl

/-- **Registration.** -/
theorem registration_frame_iff (ids : FreshIds) (db : Db) (a : Account) :
    LeavesRowsAlone db (registration ids db a) ↔ RegisterSafe db a := by
  unfold registration RegisterSafe
  by_cases hValid : a.Valid
  · rw [forall_prop_of_true hValid]
    classical
    rw [register_valid ids db hValid]
    by_cases hTaken : UsernameTaken db a
    · rw [if_pos hTaken]
      simp only [hTaken, ok_bind, not_true_eq_false, forall_const, false_implies, and_true]
      by_cases hId : a.accountId = none
      · rw [if_pos hId]
        exact iff_of_true (leavesRowsAlone_unchanged (by decide)) hId
      · rw [if_neg hId]
        exact iff_of_false (not_leavesRowsAlone rfl) hId
    · rw [if_neg hTaken]
      simp only [hTaken, not_false_eq_true, forall_const, false_implies, true_and]
      obtain ⟨username, password, hName, -⟩ := id hValid
      cases hSave : AccountRepository.save ids db a with
      | error e =>
        refine iff_of_true (leavesRowsAlone_unchanged (by decide)) ?_
        intro hId hFits
        obtain ⟨db', saved, hOk, -⟩ := (save_overwrites ids hName hId hTaken).1 hFits
        rw [hSave] at hOk
        cases hOk
      | ok answer =>
        obtain ⟨db', saved⟩ := answer
        simp only [ok_bind, pure_eq_ok]
        rw [if_neg (save_accountId hSave)]
        by_cases hId : AccountIdMatches db a
        · have hCases := save_overwrites ids hName hId hTaken
          have hFits : a.Fits := by
            by_contra hWide
            obtain ⟨e, hError⟩ := hCases.2 hWide
            rw [hSave] at hError
            cases hError
          obtain ⟨db'', saved', hOk, hCount⟩ := hCases.1 hFits
          rw [hSave] at hOk
          cases hOk
          exact iff_of_false (not_leavesRowsAlone hCount) fun hNot => hNot hId hFits
        · exact iff_of_true (leavesRowsAlone_added (save_inserts hId hSave))
            fun hMatch => absurd hMatch hId
  · refine iff_of_true ?_ fun h => absurd h hValid
    rcases register_invalid ids db hValid with ⟨-, hRun⟩ | ⟨-, hRun⟩
    · rw [hRun]
      exact leavesRowsAlone_unchanged (by decide)
    · rw [hRun]
      exact leavesRowsAlone_unchanged (by decide)

/-! ## Messages -/

/-- The checks on the body that `createMessage` makes. -/
def Message.Valid (db : Db) (m : Message) : Prop :=
  ∃ text, m.messageText = some text ∧ text ≠ [] ∧ text.length < 255 ∧
    ∃ r ∈ db.1.account, m.postedBy = some r.accountId

/-- The poster of a message with a text that can be stored is not null. -/
def Message.Given (m : Message) : Prop :=
  ∀ text ∈ m.messageText, text ≠ [] → text.length < 255 → m.postedBy ≠ none

def MessageIdMatches (db : Db) (m : Message) : Prop :=
  ∃ r ∈ db.1.message, m.messageId = some r.messageId

/-- The bodies for which `POST /messages` leaves the existing rows alone. -/
def PostSafe (db : Db) (m : Message) : Prop := m.Valid db → ¬ MessageIdMatches db m

theorem saveMessage_inserts {ids : FreshIds} {db db' : Db} {m saved : Message}
    (hId : ¬ MessageIdMatches db m)
    (h : MessageRepository.save ids db m = .ok (db', saved)) : AddsRow db db' := by
  unfold MessageRepository.save at h
  rw [filter_keys_eq_none hId] at h
  obtain ⟨committed, hCommit, hPair⟩ := bind_eq_ok.mp h
  cases hPair
  refine .message _ ?_ (commit_ok hCommit)
  intro hMem
  obtain ⟨r, hr, hEq⟩ := List.mem_map.mp hMem
  exact ids.message_fresh _ r hr hEq

theorem schema_overwrite_message (db : Db) {r : MessageRow}
    (hText : ∀ text ∈ r.messageText, Varchar text)
    (hPoster : ∀ id ∈ r.postedBy, id ∈ db.1.account.map (·.accountId)) :
    Schema { db.1 with message := overwrite MessageRow.messageId r db.1.message } where
  accountId := db.2.accountId
  username := db.2.username
  accountWidth := db.2.accountWidth
  messageId := by
    rw [map_key_overwrite]
    exact db.2.messageId
  messageWidth := forall_mem_overwrite hText db.2.messageWidth
  postedBy := forall_mem_overwrite hPoster db.2.postedBy

theorem saveMessage_overwrites (ids : FreshIds) {db : Db} {m : Message} (h : m.Valid db)
    (hId : MessageIdMatches db m) :
    ∃ db' saved, MessageRepository.save ids db m = .ok (db', saved) ∧
      rowCount db' = rowCount db := by
  obtain ⟨text, hText, -, hLength, poster, hMem, hPoster⟩ := h
  obtain ⟨id, hSome⟩ := filter_keys_iff.mpr hId
  unfold MessageRepository.save
  rw [hSome]
  have hSchema := schema_overwrite_message db
    (r := ⟨id, m.postedBy, m.messageText, m.timePostedEpoch⟩)
    (by
      intro u hu
      rw [Option.mem_def, hText] at hu
      cases hu
      exact Nat.le_of_lt hLength)
    (by
      intro p hp
      rw [Option.mem_def, hPoster] at hp
      cases hp
      exact List.mem_map_of_mem hMem)
  dsimp only [Option.getD_some]
  rw [commit_of_schema hSchema]
  refine ⟨_, _, rfl, ?_⟩
  unfold rowCount
  rw [length_overwrite]

theorem findById_isNone {db : Db} {id : Int} :
    ((db.1.account.find? (·.accountId = id)).map AccountRow.entity).isNone ↔
      ¬ ∃ r ∈ db.1.account, r.accountId = id := by
  simp

/-- A body that is not valid is rejected, unless a poster is looked up that is null. -/
theorem createMessage_invalid (ids : FreshIds) (db : Db) {m : Message} (h : ¬ m.Valid db) :
    (m.Given ∧ MessageService.createMessage ids db (some m) = .ok (db, none)) ∨
      ¬ m.Given ∧ MessageService.createMessage ids db (some m) = .error .illegalArgument := by
  unfold MessageService.createMessage Message.Given
  cases hText : m.messageText with
  | none =>
    simp only [hText]
    exact Or.inl ⟨nofun, rfl⟩
  | some text =>
    simp only [hText]
    by_cases hLength : text = [] ∨ text.length ≥ 255
    · rw [if_pos hLength]
      refine Or.inl ⟨?_, rfl⟩
      rintro text' ⟨⟩ hBlank hShort
      exact absurd hLength (not_or.mpr ⟨hBlank, Nat.not_le.mpr hShort⟩)
    · rw [if_neg hLength]
      rw [not_or, Nat.not_le] at hLength
      cases hPoster : m.postedBy with
      | none => exact Or.inr ⟨fun hGiven => hGiven text rfl hLength.1 hLength.2 rfl, rfl⟩
      | some id =>
        rw [AccountRepository.findById, ok_bind, if_pos]
        · exact Or.inl ⟨fun _ _ _ _ => Option.some_ne_none _, rfl⟩
        · rw [findById_isNone]
          rintro ⟨r, hr, rfl⟩
          exact h ⟨text, hText, hLength.1, hLength.2, r, hr, hPoster⟩

theorem createMessage_valid (ids : FreshIds) (db : Db) {m : Message} (h : m.Valid db) :
    MessageService.createMessage ids db (some m) = do
      let (db, saved) ← MessageRepository.save ids db m
      return (db, some saved) := by
  obtain ⟨text, hText, hBlank, hLength, r, hr, hPoster⟩ := h
  unfold MessageService.createMessage
  simp only [hText, hPoster]
  rw [if_neg (by simp [hBlank]; omega), AccountRepository.findById, ok_bind, if_neg]
  · rfl
  · rw [findById_isNone, not_not]
    exact ⟨r, hr, rfl⟩

/-- **Messages.** -/
theorem postNewMessage_frame_iff (ids : FreshIds) (db : Db) (m : Message) :
    LeavesRowsAlone db (postNewMessage ids db m) ↔ PostSafe db m := by
  unfold postNewMessage PostSafe
  by_cases hValid : m.Valid db
  · rw [forall_prop_of_true hValid, createMessage_valid ids db hValid]
    by_cases hId : MessageIdMatches db m
    · obtain ⟨db', saved, hSave, hCount⟩ := saveMessage_overwrites ids hValid hId
      rw [hSave]
      exact iff_of_false (not_leavesRowsAlone hCount) (not_not.mpr hId)
    · refine iff_of_true ?_ hId
      cases hSave : MessageRepository.save ids db m with
      | error e => exact leavesRowsAlone_unchanged (by decide)
      | ok answer => exact leavesRowsAlone_added (saveMessage_inserts hId hSave)
  · refine iff_of_true ?_ fun h => absurd h hValid
    rcases createMessage_invalid ids db hValid with ⟨-, hRun⟩ | ⟨-, hRun⟩
    · rw [hRun]
      exact leavesRowsAlone_unchanged (by decide)
    · rw [hRun]
      exact leavesRowsAlone_unchanged (by decide)

/-! ## Both endpoints -/

/-- The two POST endpoints leave the existing rows alone for exactly the safe bodies. -/
theorem post_frame_iff (ids : FreshIds) (db : Db) :
    (∀ a, LeavesRowsAlone db (registration ids db a) ↔ RegisterSafe db a) ∧
      ∀ m, LeavesRowsAlone db (postNewMessage ids db m) ↔ PostSafe db m :=
  ⟨registration_frame_iff ids db, postNewMessage_frame_iff ids db⟩

/-- The ids that follow the greatest id in use. -/
def nextIds : FreshIds where
  account rows := freshKey (rows.map (·.accountId))
  message rows := freshKey (rows.map (·.messageId))
  account_fresh _ _ hr := Int.ne_of_lt (lt_freshKey (List.mem_map_of_mem hr))
  message_fresh _ _ hr := Int.ne_of_lt (lt_freshKey (List.mem_map_of_mem hr))

/-- The first account of `data.sql`. -/
def testuser1 : AccountRow := ⟨9999, javaString "testuser1", some (javaString "password")⟩

def oneUser : Db := ⟨{ account := [testuser1], message := [] }, by decide⟩

/-- A body with a free username and the id of `testuser1`. -/
def bodyWithId : Account := ⟨some 9999, some (javaString "mallory"), some (javaString "secret")⟩

/-- A registration that takes over an existing account row. -/
theorem not_forall_leavesRowsAlone :
    ¬ ∀ (ids : FreshIds) (db : Db), (∀ a, LeavesRowsAlone db (registration ids db a)) ∧
      ∀ m, LeavesRowsAlone db (postNewMessage ids db m) := by
  intro hAll
  have hKept := ((hAll nextIds oneUser).1 bodyWithId).keepsRows.1 testuser1 (by decide)
  exact absurd hKept (by decide)

end Windborne.Spring
