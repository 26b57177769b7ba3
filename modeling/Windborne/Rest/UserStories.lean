import Windborne.Rest.Statuses

/-!
# Two promises of the user stories

A message text is accepted when it is created exactly if it is accepted as an update, and a
registration answers what it has done. Both services break the first promise for texts of exactly
255 characters. `POST /register` of the Spring service breaks the second one for a body with an
account id that it should not have, and for a text that does not fit into its column.
-/

namespace Windborne

open Library
open Spring (JavaString javaString)

/-! ## Texts of messages -/

/-- Not blank and not over 255 characters. -/
def AllowedText (text : JavaString) : Prop := text ≠ [] ∧ text.length ≤ 255

/-- What the user stories promise of a text, for a creation and an update with it. -/
structure AcceptedAlike (text : JavaString) (created updated : Prop) : Prop where
  agree : created ↔ updated
  create : created ↔ AllowedText text
  update : updated ↔ AllowedText text

theorem acceptedAlike_iff {text : JavaString} {created updated : Prop}
    (hCreate : created ↔ text ≠ [] ∧ text.length < 255) (hUpdate : updated ↔ AllowedText text) :
    AcceptedAlike text created updated ↔ text.length ≠ 255 := by
  constructor
  · intro hAlike hLength
    have hAllowed : AllowedText text := by
      refine ⟨?_, Nat.le_of_eq hLength⟩
      rintro rfl
      cases hLength
    have hShort := (hCreate.mp (hAlike.create.mpr hAllowed)).2
    omega
  · intro hLength
    have hCreate' : created ↔ AllowedText text := by
      rw [hCreate]
      refine and_congr_right fun _ => ?_
      omega
    exact ⟨hCreate'.trans hUpdate.symm, hCreate', hUpdate⟩

namespace Javalin

variable {env : Environment} {key : Int} {s : MessageTable} {text : JavaString}

theorem addMessage_accepts_iff {m : Message} (hPoster : m.postedBy ∈ env.accounts)
    (hText : m.messageText = some text) :
    (s.addMessage env key (some m)).1 ≠ none ↔ text ≠ [] ∧ text.length < 255 := by
  unfold MessageTable.addMessage
  cases hNew : acceptsNew (some m) with
  | none =>
    refine iff_of_false (fun h => h rfl) fun hShort => ?_
    have hSome := acceptsNew_eq_some_iff.mpr ⟨rfl, text, hText, hShort⟩
    rw [hNew] at hSome
    cases hSome
  | some m' =>
    obtain ⟨hSame, text', hText', hShort⟩ := acceptsNew_eq_some_iff.mp hNew
    cases hSame
    rw [Option.mem_def, hText] at hText'
    cases hText'
    refine iff_of_true ?_ hShort
    simp [userExists, MessageTable.insertMessage, hPoster]

theorem updateMessageById_accepts_iff {htmlId : JavaString} {old : Message}
    (hOld : (env.parseInt htmlId).bind (getMessageById s.rows) = some old) :
    (s.updateMessageById env htmlId (some text)).1 ≠ none ↔ AllowedText text := by
  obtain ⟨id, hId, hFound⟩ := Option.bind_eq_some_iff.mp hOld
  unfold MessageTable.updateMessageById
  cases hAccepts : acceptsText (some text) with
  | none =>
    refine iff_of_false (fun h => h rfl) fun hGood => ?_
    have hSome := acceptsText_eq_some_iff.mpr ⟨rfl, text, rfl, hGood⟩
    rw [hAccepts] at hSome
    cases hSome
  | some newText =>
    obtain ⟨hSame, hEdit⟩ := acceptsText_eq_some_iff.mp hAccepts
    cases hSame
    obtain ⟨t, ht, hGood⟩ := hEdit
    cases ht
    refine iff_of_true ?_ hGood
    have hAfter : getMessageById (updateMessageTextById s.rows id text) = _ :=
      getMessageById_update_some hFound
    have hUpdated : (getMessageById (updateMessageTextById s.rows id text) id).isSome := by
      rw [hAfter, (mem_of_getMessageById hFound).2, Function.update_self]
      rfl
    dsimp only
    rw [hId]
    dsimp only
    rw [hFound]
    exact Option.isSome_iff_ne_none.mp hUpdated

end Javalin

namespace Spring

variable {ids : FreshIds} {db : Db} {text : JavaString}

/-- A service call that ends without an exception and returns a message. -/
def Returns (run : Throws (Db × Option Message)) : Prop :=
  ∃ db' m, run = .ok (db', some m)

theorem createMessage_accepts_iff {m : Message} (hText : m.messageText = some text)
    {poster : AccountRow} (hMem : poster ∈ db.1.account)
    (hPoster : m.postedBy = some poster.accountId) :
    Returns (MessageService.createMessage ids db (some m)) ↔
      text ≠ [] ∧ text.length < 255 := by
  by_cases hValid : m.Valid db
  · rw [createMessage_valid ids db hValid]
    obtain ⟨text', hText', hBlank, hShort, -⟩ := id hValid
    rw [hText] at hText'
    cases hText'
    refine iff_of_true ?_ ⟨hBlank, hShort⟩
    obtain ⟨db', saved, hSave⟩ := saveMessage_valid ids hValid
    rw [hSave]
    exact ⟨db', saved, rfl⟩
  · refine iff_of_false ?_ fun hShort =>
      hValid ⟨text, hText, hShort.1, hShort.2, poster, hMem, hPoster⟩
    rintro ⟨db', saved, hRun⟩
    rcases createMessage_invalid ids db hValid with ⟨-, hNone⟩ | ⟨-, hError⟩
    · rw [hNone] at hRun
      cases hRun
    · rw [hError] at hRun
      cases hRun

theorem updateMessage_accepts_iff {new : Message} (hText : new.messageText = some text)
    {old : MessageRow} (hMem : old ∈ db.1.message) :
    Returns (MessageService.updateMessage ids db old.messageId new) ↔ AllowedText text := by
  unfold MessageService.updateMessage
  rw [hText]
  dsimp only
  by_cases hBad : text.length > 255 ∨ text = []
  · rw [if_pos hBad]
    refine iff_of_false ?_ fun hGood => ?_
    · rintro ⟨db', m, hRun⟩
      cases hRun
    · exact hBad.elim (Nat.not_lt.mpr hGood.2) hGood.1
  · rw [if_neg hBad]
    rw [not_or, Nat.not_lt] at hBad
    refine iff_of_true ?_ ⟨hBad.2, hBad.1⟩
    cases hFound : MessageRepository.findById db old.messageId with
    | none =>
      have hNone := List.find?_eq_none.mp (Option.map_eq_none_iff.mp hFound) old hMem
      exact absurd (decide_eq_true rfl) hNone
    | some temp =>
      obtain ⟨r, hRow, -, rfl⟩ := exists_row_of_findById hFound
      obtain ⟨db', saved, hSave⟩ := save_text ids hRow hBad.1
      dsimp only [MessageRow.entity]
      rw [hSave]
      exact ⟨db', _, rfl⟩

end Spring

/-- **Texts.** By an existing poster and of an existing message, a text is created and updated
alike exactly if its length is not 255, in both services. -/
theorem texts_accepted_alike_iff (text : JavaString) :
    (∀ (env : Javalin.Environment) (key : Int) (s : Javalin.MessageTable) (m old : Javalin.Message)
      (htmlId : JavaString), m.postedBy ∈ env.accounts → m.messageText = some text →
      (env.parseInt htmlId).bind (Javalin.getMessageById s.rows) = some old →
      (AcceptedAlike text ((s.addMessage env key (some m)).1 ≠ none)
        ((s.updateMessageById env htmlId (some text)).1 ≠ none) ↔ text.length ≠ 255)) ∧
    ∀ (ids : Spring.FreshIds) (db : Spring.Db) (m new : Spring.Message)
      (poster : Spring.AccountRow) (old : Spring.MessageRow), poster ∈ db.1.account →
      m.postedBy = some poster.accountId → m.messageText = some text → old ∈ db.1.message →
      new.messageText = some text →
      (AcceptedAlike text (Spring.Returns (Spring.MessageService.createMessage ids db (some m)))
        (Spring.Returns (Spring.MessageService.updateMessage ids db old.messageId new)) ↔
        text.length ≠ 255) := by
  constructor
  · intro env key s m old htmlId hPoster hText hOld
    exact acceptedAlike_iff (Javalin.addMessage_accepts_iff hPoster hText)
      (Javalin.updateMessageById_accepts_iff hOld)
  · intro ids db m new poster old hMem hPoster hText hOld hNew
    exact acceptedAlike_iff (Spring.createMessage_accepts_iff hText hMem hPoster)
      (Spring.updateMessage_accepts_iff hNew hOld)

/-- `"a"` as often as given. -/
def longText (n : Nat) : JavaString := List.replicate n 97

theorem length_longText (n : Nat) : (longText n).length = n := List.length_replicate

namespace Javalin

/-- One account, and `parseInt` of `"1"`. -/
def accountOne : Environment where
  accounts := [1]
  parseInt p := if p = javaString "1" then some 1 else none

/-- A message of the first account. -/
def messageWith (text : JavaString) : Message := ⟨0, 1, text, 5⟩

end Javalin

namespace Spring

/-- The first account and the first message of `data.sql`. -/
def oneMessage : Db :=
  ⟨{ account := [testuser1],
     message := [⟨9999, some 9999, some (javaString "test message 1"), some 1669947792⟩] },
    by decide⟩

/-- A message of `testuser1`. -/
def messageWith (text : JavaString) : Message := ⟨none, some 9999, some text, some 5⟩

end Spring

theorem texts_accepted_alike_short :
    AcceptedAlike (longText 254)
      ((Javalin.MessageTable.seeded.addMessage Javalin.accountOne 2
        (some (Javalin.messageWith (longText 254)))).1 ≠ none)
      ((Javalin.MessageTable.seeded.updateMessageById Javalin.accountOne (javaString "1")
        (some (longText 254))).1 ≠ none) ∧
    AcceptedAlike (longText 254)
      (Spring.Returns (Spring.MessageService.createMessage Spring.nextIds Spring.oneMessage
        (some (Spring.messageWith (longText 254)))))
      (Spring.Returns (Spring.MessageService.updateMessage Spring.nextIds Spring.oneMessage 9999
        (Spring.messageWith (longText 254)))) := by
  have hLength : (longText 254).length ≠ 255 := by
    rw [length_longText]
    decide
  constructor
  · exact ((texts_accepted_alike_iff (longText 254)).1 Javalin.accountOne 2
      Javalin.MessageTable.seeded (Javalin.messageWith (longText 254)) _ (javaString "1")
      (by decide) rfl rfl).mpr hLength
  · exact ((texts_accepted_alike_iff (longText 254)).2 Spring.nextIds Spring.oneMessage
      (Spring.messageWith (longText 254)) (Spring.messageWith (longText 254)) Spring.testuser1
      ⟨9999, some 9999, some (javaString "test message 1"), some 1669947792⟩
      (by decide) rfl rfl (by decide) rfl).mpr hLength

/-- A text of 255 characters is an update but no new message. -/
theorem text_255_not_accepted_alike :
    ¬AcceptedAlike (longText 255)
      ((Javalin.MessageTable.seeded.addMessage Javalin.accountOne 2
        (some (Javalin.messageWith (longText 255)))).1 ≠ none)
      ((Javalin.MessageTable.seeded.updateMessageById Javalin.accountOne (javaString "1")
        (some (longText 255))).1 ≠ none) ∧
    ¬AcceptedAlike (longText 255)
      (Spring.Returns (Spring.MessageService.createMessage Spring.nextIds Spring.oneMessage
        (some (Spring.messageWith (longText 255)))))
      (Spring.Returns (Spring.MessageService.updateMessage Spring.nextIds Spring.oneMessage 9999
        (Spring.messageWith (longText 255)))) := by
  have hLength := length_longText 255
  have hAllowed : AllowedText (longText 255) :=
    ⟨List.ne_nil_of_length_pos (by omega), Nat.le_of_eq hLength⟩
  constructor
  · intro hAlike
    have hShort := (Javalin.addMessage_accepts_iff (by decide) rfl).mp
      (hAlike.create.mpr hAllowed)
    omega
  · intro hAlike
    have hPoster : Spring.testuser1 ∈ Spring.oneMessage.1.account := by decide
    have hShort := (Spring.createMessage_accepts_iff rfl hPoster rfl).mp
      (hAlike.create.mpr hAllowed)
    omega

/-! ## Registration in the Spring service -/

namespace Spring

open SocialMediaController (registration)

/-- A row with a new id and the username and the password of the body has been added, and
nothing else has changed. -/
def StoresNew (db db' : Db) (a : Account) : Prop :=
  ∃ r : AccountRow, (∀ q ∈ db.1.account, q.accountId ≠ r.accountId) ∧
    a.username = some r.username ∧ a.password = r.password ∧
    db'.1 = { db.1 with account := db.1.account ++ [r] }

/-- What the user story promises of the answer to a registration. -/
structure TellsTruth (db : Db) (a : Account) (answer : Answer Account) : Prop where
  ok : answer.2.status = .ok ↔ StoresNew db answer.1 a
  conflict : answer.2.status = .conflict ↔ a.Valid ∧ UsernameTaken db a
  otherwise : ¬StoresNew db answer.1 a → ¬(a.Valid ∧ UsernameTaken db a) →
    answer.2.status = .badRequest

/-- The bodies that `POST /register` answers truthfully. -/
def RegisterTruthful (db : Db) (a : Account) : Prop :=
  a.Valid → (UsernameTaken db a → a.accountId = none) ∧
    (¬UsernameTaken db a → ¬AccountIdMatches db a ∧ a.Fits)

variable {ids : FreshIds} {db : Db} {a : Account}

theorem not_storesNew {db' : Db} (h : rowCount db' = rowCount db) : ¬StoresNew db db' a := by
  rintro ⟨r, -, -, -, hAdded⟩
  unfold rowCount at h
  rw [hAdded] at h
  dsimp only at h
  rw [List.length_append, List.length_singleton] at h
  omega

/-- With a free username, texts that fit and no id of a row, `save` adds the account. -/
theorem save_new (ids : FreshIds) (hFree : ¬UsernameTaken db a) (hId : ¬AccountIdMatches db a)
    (hFits : a.Fits) {username : JavaString} (hName : a.username = some username) :
    ∃ db' saved, AccountRepository.save ids db a = .ok (db', saved) ∧ StoresNew db db' a := by
  have hSchema := schema_insert_account db
    (r := ⟨ids.account db.1.account, username, a.password⟩)
    (fun q hq => ids.account_fresh _ q hq)
    (fun q hq hEq => hFree ⟨q, hq, hName.trans (congrArg some hEq.symm)⟩)
    (hFits.1 username hName) hFits.2
  unfold AccountRepository.save
  rw [hName, filter_keys_eq_none hId]
  dsimp only [Option.getD_none]
  rw [commit_of_schema hSchema]
  exact ⟨_, _, rfl, _, fun q hq => ids.account_fresh _ q hq, hName, rfl, rfl⟩

/-- An answer that is neither 200 nor 409 has to be 400, for a body whose username is free. -/
theorem tellsTruth_rejected_iff (status : HttpStatus) {body : Option Account}
    (hFree : ¬(a.Valid ∧ UsernameTaken db a)) (hOk : status ≠ .ok)
    (hConflict : status ≠ .conflict) :
    TellsTruth db a (db, ⟨status, body⟩) ↔ status = .badRequest := by
  have hNot : ¬StoresNew db db a := not_storesNew rfl
  exact ⟨fun h => h.otherwise hNot hFree,
    fun h => ⟨iff_of_false hOk hNot, iff_of_false hConflict hFree, fun _ _ => h⟩⟩

theorem tellsTruth_taken_iff (ids : FreshIds) (hValid : a.Valid) (hTaken : UsernameTaken db a) :
    TellsTruth db a (registration ids db a) ↔ a.accountId = none := by
  classical
  have hNot : ¬StoresNew db db a := not_storesNew rfl
  unfold registration
  rw [register_valid ids db hValid, if_pos hTaken, ok_bind]
  dsimp only
  by_cases hId : a.accountId = none
  · rw [if_pos hId]
    exact iff_of_true ⟨iff_of_false nofun hNot, iff_of_true rfl ⟨hValid, hTaken⟩,
      fun _ hOther => absurd ⟨hValid, hTaken⟩ hOther⟩ hId
  · rw [if_neg hId]
    exact iff_of_false (fun h => hNot (h.ok.mp rfl)) hId

theorem tellsTruth_free_iff (ids : FreshIds) (hValid : a.Valid) (hFree : ¬UsernameTaken db a) :
    TellsTruth db a (registration ids db a) ↔ ¬AccountIdMatches db a ∧ a.Fits := by
  classical
  have hNotTaken : ¬(a.Valid ∧ UsernameTaken db a) := fun h => hFree h.2
  obtain ⟨username, -, hName, -⟩ := id hValid
  unfold registration
  rw [register_valid ids db hValid, if_neg hFree]
  by_cases hFits : a.Fits
  · by_cases hId : AccountIdMatches db a
    · obtain ⟨db', saved, hSave, hCount⟩ := (save_overwrites ids hName hId hFree).1 hFits
      rw [hSave]
      simp only [ok_bind, pure_eq_ok]
      rw [if_neg (save_accountId hSave)]
      exact iff_of_false (fun h => not_storesNew hCount (h.ok.mp rfl)) fun h => h.1 hId
    · obtain ⟨db', saved, hSave, hStored⟩ := save_new ids hFree hId hFits hName
      rw [hSave]
      simp only [ok_bind, pure_eq_ok]
      rw [if_neg (save_accountId hSave)]
      exact iff_of_true ⟨iff_of_true rfl hStored, iff_of_false nofun hNotTaken,
        fun hNot => absurd hStored hNot⟩ ⟨hId, hFits⟩
  · cases hSave : AccountRepository.save ids db a with
    | ok answer => exact absurd ((save_iff ids hName hFree).mp ⟨_, _, hSave⟩) hFits
    | error e =>
      refine iff_of_false ?_ fun h => hFits h.2
      intro h
      have hStatus := (tellsTruth_rejected_iff .internalServerError hNotTaken nofun nofun).mp h
      cases hStatus

theorem tellsTruth_invalid (ids : FreshIds) (hInvalid : ¬a.Valid) (hGiven : a.Given) :
    TellsTruth db a (registration ids db a) := by
  unfold registration
  rcases register_invalid ids db hInvalid with ⟨-, hRun⟩ | ⟨hNot, -⟩
  · rw [hRun]
    exact (tellsTruth_rejected_iff .badRequest (fun h => hInvalid h.1) nofun nofun).mpr rfl
  · exact absurd hGiven hNot

/-- **Registration.** The answer to a body with a username and a password tells the truth exactly
if a taken username comes without an account id, and a free one without the id of a row and with
texts that fit. -/
theorem registration_truthful_iff (ids : FreshIds) (db : Db) (a : Account)
    (hUsername : a.username ≠ none) (hPassword : a.password ≠ none) :
    TellsTruth db a (registration ids db a) ↔ RegisterTruthful db a := by
  unfold RegisterTruthful
  by_cases hValid : a.Valid
  · rw [forall_prop_of_true hValid]
    by_cases hTaken : UsernameTaken db a
    · rw [tellsTruth_taken_iff ids hValid hTaken]
      simp [hTaken]
    · rw [tellsTruth_free_iff ids hValid hTaken]
      simp [hTaken]
  · exact iff_of_true (tellsTruth_invalid ids hValid ⟨hUsername, fun _ => hPassword⟩)
      fun h => absurd h hValid

/-- `{"username": "mallory", "password": "secret"}` -/
def bodyWithoutId : Account := ⟨none, some (javaString "mallory"), some (javaString "secret")⟩

theorem registration_truthful_mallory :
    TellsTruth oneUser bodyWithoutId (registration nextIds oneUser bodyWithoutId) := by
  refine (registration_truthful_iff nextIds oneUser bodyWithoutId nofun nofun).mpr fun _ => ⟨?_, ?_⟩
  · exact fun _ => rfl
  · intro _
    exact ⟨by rintro ⟨r, -, ⟨⟩⟩, by
      constructor
      · rintro u ⟨⟩
        decide
      · rintro p ⟨⟩
        decide⟩

/-- A body with the username of `testuser1` and an account id. -/
def duplicateWithId : Account :=
  ⟨some 1, some (javaString "testuser1"), some (javaString "password")⟩

/-- A registration of a taken username is answered with 200. -/
theorem duplicate_answered_ok :
    ¬∀ (ids : FreshIds) (db : Db) (a : Account), a.username ≠ none → a.password ≠ none →
      TellsTruth db a (registration ids db a) := by
  intro hAll
  have hTruth := hAll nextIds oneUser duplicateWithId nofun nofun
  have hOk : (registration nextIds oneUser duplicateWithId).2.status = .ok := by decide
  have hSame : rowCount (registration nextIds oneUser duplicateWithId).1 = rowCount oneUser := by
    decide
  exact not_storesNew hSame (hTruth.ok.mp hOk)

end Spring

end Windborne
