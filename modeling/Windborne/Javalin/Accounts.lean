import Windborne.Javalin.Registration
import Windborne.Library.Runs

/-!
# Concurrent registrations and logins of the Javalin service

A registration is a `SELECT` for the username and, when there is none, an `INSERT`; a login is
one `SELECT`. Two registrations may both find a username free, but the table takes only one of
them. The `INSERT` is taken to store the given strings. A method of `AccountDAO` is one step: its
field `conn`, which all requests share, is not modelled.
-/

namespace Windborne.Javalin

open Library
open Spring (JavaString javaString)

/-! ## `AccountDAO` and `AccountService` -/

/-- No row has the username `NULL`. -/
def getAccountByUsername (rows : List Account) (uname : Option JavaString) : Option Account :=
  uname.bind fun u => rows.find? (·.username = some u)

/-- The row that `insertAccount` writes. -/
def insertedRow (key : Int) (a : Account) : Account where
  accountId := key
  username := formatArg a.username
  password := formatArg a.password

/-- The table takes a row whose username is new and whose strings fit. -/
def Insertable (rows : List Account) (a : Account) : Prop :=
  some (formatArg a.username) ∉ rows.map Account.username ∧
    (formatArg a.username).length ≤ 255 ∧ (formatArg a.password).length ≤ 255

instance (rows : List Account) (a : Account) : Decidable (Insertable rows a) :=
  inferInstanceAs (Decidable (_ ∧ _ ∧ _))

def verifyAccount (rows : List Account) (username password : Option JavaString) :
    Except Failure (Option Account) :=
  match getAccountByUsername rows username with
  | none => return none
  | some a => do
    let stored ← deref a.password
    if password ≠ some stored then return none else return some a

/-! ## States and steps -/

inductive AccountRequest where
  | registerUser (body : Option Account)
  | login (body : Option Account)

inductive AccountResponse where
  | account (a : Account)
  | badRequest
  | unauthorized
  | serverError

/-- The next statement of a request. -/
inductive AccountPc where
  | start
  | insert (a : Account)
  | done (response : AccountResponse)

/-- `log` has the inserts that are through, with the process of each. -/
structure Accounts (P : Type) where
  rows : List Account
  used : List Int
  pc : P → AccountPc
  log : List (P × Account)

/-- A process takes its next step; `key` is the next generated key. -/
structure AccountAction (P : Type) where
  process : P
  key : Int

namespace Accounts

variable {P : Type} [DecidableEq P]

def goto (s : Accounts P) (p : P) (pc : AccountPc) : Accounts P :=
  { s with pc := Function.update s.pc p pc }

/-- `registerUserHandler` up to the `INSERT`. -/
def register (s : Accounts P) (p : P) (body : Option Account) : Accounts P :=
  match addAccount (fun u => getAccountByUsername s.rows u) body with
  | .error _ => s.goto p (.done .serverError)
  | .ok none => s.goto p (.done .badRequest)
  | .ok (some a) => s.goto p (.insert a)

/-- `loginHandler` -/
def login (s : Accounts P) (p : P) : Option Account → Accounts P
  | none => s.goto p (.done .serverError)
  | some account =>
    match verifyAccount s.rows account.username account.password with
    | .error _ => s.goto p (.done .serverError)
    | .ok none => s.goto p (.done .unauthorized)
    | .ok (some a) => s.goto p (.done (.account a))

/-- The `INSERT` and the end of `registerUserHandler`. -/
def insert (s : Accounts P) (p : P) (key : Int) (a : Account) : Option (Accounts P) :=
  if Insertable s.rows a then
    if key ∈ s.used then none
    else some { s.goto p (.done (.account { a with accountId := key })) with
      rows := s.rows ++ [insertedRow key a]
      used := key :: s.used
      log := s.log ++ [(p, insertedRow key a)] }
  else some (s.goto p (.done .badRequest))

/-- The next statement of a process. -/
def step (requests : P → AccountRequest) (s : Accounts P) (a : AccountAction P) :
    Option (Accounts P) :=
  match s.pc a.process, requests a.process with
  | .start, .registerUser body => some (s.register a.process body)
  | .start, .login body => some (s.login a.process body)
  | .insert account, _ => s.insert a.process a.key account
  | .done _, _ => none

def Step (requests : P → AccountRequest) (s : Accounts P) (a : AccountAction P)
    (t : Accounts P) : Prop := s.step requests a = some t

/-- The account of `SocialMedia.sql`. -/
def testuser1 : Account := ⟨1, some (javaString "testuser1"), some (javaString "password")⟩

def seeded : Accounts P where
  rows := [testuser1]
  used := [1]
  pc _ := .start
  log := []

end Accounts

/-! ## The invariant -/

/-- What `addAccount` checks of the strings. -/
def Acceptable (a : Account) : Prop :=
  ∃ u p, a.username = some u ∧ a.password = some p ∧ u ≠ [] ∧ 4 ≤ p.length

theorem insertedRow_eq {a : Account} (h : Acceptable a) (key : Int) :
    insertedRow key a = { a with accountId := key } := by
  obtain ⟨u, p, hu, hp, -⟩ := h
  simp [insertedRow, formatArg, hu, hp]

namespace Accounts

variable {P : Type} {requests : P → AccountRequest} {s t : Accounts P} {p : P}

/-- The seed or a completed insert has stored the account. -/
def Stored (s : Accounts P) (a : Account) : Prop := a = testuser1 ∨ ∃ p, (p, a) ∈ s.log

structure Inv (requests : P → AccountRequest) (s : Accounts P) : Prop where
  ids : (s.rows.map Account.accountId).Nodup
  used : ∀ a ∈ s.rows, a.accountId ∈ s.used
  usernames : (s.rows.map Account.username).Nodup
  acceptable : ∀ a ∈ s.rows, Acceptable a
  history : s.rows = testuser1 :: s.log.map Prod.snd
  inserting : ∀ p a, s.pc p = .insert a → requests p = .registerUser (some a) ∧ Acceptable a
  created : ∀ p b, s.pc p = .done (.account b) → ∀ body, requests p = .registerUser body →
    (p, b) ∈ s.log ∧ ∃ a ∈ body, a.username = b.username

theorem inv_seeded : Inv requests seeded where
  ids := List.nodup_singleton _
  used := by simp [seeded, testuser1]
  usernames := List.nodup_singleton _
  acceptable := by
    intro a ha
    cases List.mem_singleton.mp ha
    exact ⟨_, _, rfl, rfl, by decide, by decide⟩
  history := rfl
  inserting := nofun
  created := nofun

theorem Inv.stored_iff (h : s.Inv requests) {a : Account} : s.Stored a ↔ a ∈ s.rows := by
  rw [h.history, List.mem_cons, List.mem_map]
  unfold Stored
  simp

/-- The account that has the username, if there is one. -/
theorem Inv.getAccountByUsername_eq_some (h : s.Inv requests) {uname : Option JavaString}
    {a : Account} (hName : uname ≠ none) :
    getAccountByUsername s.rows uname = some a ↔ a ∈ s.rows ∧ a.username = uname := by
  obtain ⟨u, rfl⟩ := Option.ne_none_iff_exists'.mp hName
  constructor
  · intro hFound
    exact ⟨List.mem_of_find?_eq_some hFound, by simpa using List.find?_some hFound⟩
  · rintro ⟨hMem, hSame⟩
    cases hFound : getAccountByUsername s.rows (some u) with
    | none =>
      have hNone := List.find?_eq_none.mp hFound a hMem
      simp [hSame] at hNone
    | some b =>
      have hMem' : b ∈ s.rows := List.mem_of_find?_eq_some hFound
      have hSame' : b.username = some u := by simpa using List.find?_some hFound
      rw [List.inj_on_of_nodup_map h.usernames hMem' hMem (hSame'.trans hSame.symm)]

/-- A login finds exactly the account with both strings. -/
theorem Inv.verifyAccount (h : s.Inv requests) (username password : Option JavaString) :
    ∃ answer, verifyAccount s.rows username password = .ok answer ∧
      ∀ b, answer = some b ↔ b ∈ s.rows ∧ username = b.username ∧ password = b.password := by
  unfold Javalin.verifyAccount
  cases hFound : getAccountByUsername s.rows username with
  | none =>
    refine ⟨none, rfl, fun b => ⟨nofun, ?_⟩⟩
    rintro ⟨hMem, rfl, -⟩
    obtain ⟨u, -, hu, -⟩ := h.acceptable b hMem
    have hSome := (h.getAccountByUsername_eq_some (by simp [hu])).mpr ⟨hMem, rfl⟩
    rw [hFound] at hSome
    cases hSome
  | some a =>
    have hName : username ≠ none := by
      rintro rfl
      cases hFound
    obtain ⟨hMem, hUser⟩ := (h.getAccountByUsername_eq_some hName).mp hFound
    obtain ⟨u, stored, -, hStored, -⟩ := h.acceptable a hMem
    have hOnly : ∀ b ∈ s.rows, username = b.username → b = a := fun b hb hSame =>
      List.inj_on_of_nodup_map h.usernames hb hMem (hSame.symm.trans hUser.symm)
    simp only [hStored, deref, ok_bind]
    by_cases hPassword : password = some stored
    · refine ⟨some a, if_neg (not_not.mpr hPassword), fun b => ⟨?_, ?_⟩⟩
      · rintro ⟨⟩
        exact ⟨hMem, hUser.symm, hPassword.trans hStored.symm⟩
      · rintro ⟨hb, hSame, -⟩
        rw [hOnly b hb hSame]
    · refine ⟨none, if_pos hPassword, fun b => ⟨nofun, ?_⟩⟩
      rintro ⟨hb, hSame, hSame'⟩
      rw [hOnly b hb hSame, hStored] at hSame'
      exact absurd hSame' hPassword

/-! ## Steps -/

variable [DecidableEq P]

@[simp] theorem goto_self (s : Accounts P) (p : P) (pc : AccountPc) : (s.goto p pc).pc p = pc :=
  Function.update_self ..

theorem goto_of_ne (s : Accounts P) {p q : P} (pc : AccountPc) (hq : q ≠ p) :
    (s.goto p pc).pc q = s.pc q := Function.update_of_ne hq ..

/-- A step that writes nothing; `pc` is an answer or the `INSERT` of an accepted account. -/
theorem Inv.goto (h : s.Inv requests) {pc : AccountPc}
    (hInsert : ∀ a, pc = .insert a → requests p = .registerUser (some a) ∧ Acceptable a)
    (hCreated : ∀ b, pc = .done (.account b) → ∀ body, requests p ≠ .registerUser body) :
    (s.goto p pc).Inv requests where
  ids := h.ids
  used := h.used
  usernames := h.usernames
  acceptable := h.acceptable
  history := h.history
  inserting q a hq := by
    by_cases hSame : q = p
    · subst hSame
      rw [goto_self] at hq
      exact hInsert a hq
    · rw [goto_of_ne _ _ hSame] at hq
      exact h.inserting q a hq
  created q b hq body hBody := by
    by_cases hSame : q = p
    · subst hSame
      rw [goto_self] at hq
      exact absurd hBody (hCreated b hq body)
    · rw [goto_of_ne _ _ hSame] at hq
      exact h.created q b hq body hBody

theorem Inv.register (h : s.Inv requests) {body : Option Account}
    (hRequest : requests p = .registerUser body) : (s.register p body).Inv requests := by
  unfold Accounts.register
  cases hAdd : addAccount (fun u => getAccountByUsername s.rows u) body with
  | error e => exact h.goto nofun nofun
  | ok passed =>
    cases passed with
    | none => exact h.goto nofun nofun
    | some a =>
      obtain ⟨rfl, u, pw, hu, hp, hBlank, hLong, -⟩ := addAccount_ok hAdd
      refine h.goto ?_ nofun
      rintro a' ⟨⟩
      exact ⟨hRequest, u, pw, hu, hp, hBlank, hLong⟩

theorem Inv.login (h : s.Inv requests) {body : Option Account}
    (hRequest : requests p = .login body) : (s.login p body).Inv requests := by
  have hOther : ∀ body', requests p ≠ .registerUser body' := by
    intro body' hEq
    rw [hRequest] at hEq
    cases hEq
  cases body with
  | none => exact h.goto nofun nofun
  | some account =>
    unfold Accounts.login
    dsimp only
    split
    · exact h.goto nofun nofun
    · exact h.goto nofun nofun
    · exact h.goto nofun fun _ _ => hOther

theorem Inv.insert (h : s.Inv requests) {a : Account} {key : Int} (hpc : s.pc p = .insert a)
    (hInsert : s.insert p key a = some t) : t.Inv requests := by
  obtain ⟨hRequest, hAcceptable⟩ := h.inserting p a hpc
  unfold Accounts.insert at hInsert
  split_ifs at hInsert with hFits hKey
  · cases hInsert
    obtain ⟨hNew, -⟩ := hFits
    have hRow : insertedRow key a = { a with accountId := key } := insertedRow_eq hAcceptable key
    have hName : (insertedRow key a).username = a.username := by rw [hRow]
    constructor
    · refine nodup_map_snoc_iff.mpr ⟨h.ids, ?_⟩
      intro b hb hEq
      have hUsed : (insertedRow key a).accountId ∈ s.used := hEq ▸ h.used b hb
      exact hKey hUsed
    · exact forall_mem_snoc (fun b hb => List.mem_cons_of_mem _ (h.used b hb)) List.mem_cons_self
    · refine nodup_map_snoc_iff.mpr ⟨h.usernames, ?_⟩
      intro b hb hEq
      exact hNew (List.mem_map.mpr ⟨b, hb, hEq⟩)
    · refine forall_mem_snoc h.acceptable ?_
      rw [hRow]
      exact hAcceptable
    · show s.rows ++ [insertedRow key a] = testuser1 :: (s.log ++ [(p, insertedRow key a)]).map _
      rw [h.history, List.map_append]
      rfl
    · intro q b hq
      have hNe : q ≠ p := by
        rintro rfl
        cases (goto_self s q _).symm.trans hq
      exact h.inserting q b ((goto_of_ne s _ hNe).symm.trans hq)
    · intro q b hq body hBody
      by_cases hSame : q = p
      · subst hSame
        cases (goto_self s q _).symm.trans hq
        cases hRequest.symm.trans hBody
        rw [← hRow]
        exact ⟨by simp, a, rfl, hName.symm⟩
      · obtain ⟨hLog, hUser⟩ := h.created q b ((goto_of_ne s _ hSame).symm.trans hq) body hBody
        exact ⟨List.mem_append_left _ hLog, hUser⟩
  · cases hInsert
    exact h.goto nofun nofun

/-- **Step lemma.** -/
theorem Inv.step (h : s.Inv requests) {a : AccountAction P} (hStep : Step requests s a t) :
    t.Inv requests := by
  unfold Step Accounts.step at hStep
  split at hStep
  · rename_i hRequest
    cases hStep
    exact h.register hRequest
  · rename_i hRequest
    cases hStep
    exact h.login hRequest
  · rename_i hpc
    exact h.insert hpc hStep
  · cases hStep

/-- **Run lemma.** -/
theorem inv_of_run {tr : List (AccountAction P)} (h : Run (Step requests) seeded tr s) :
    s.Inv requests :=
  h.invariant inv_seeded fun _ _ _ hInv hStep => hInv.step hStep

omit [DecidableEq P] in
/-- Of the registrations of one username at most one has created an account. -/
theorem Inv.created_unique (h : s.Inv requests) {p q : P} {a b a' b' : Account}
    (hp : requests p = .registerUser (some a)) (hq : requests q = .registerUser (some b))
    (hName : a.username = b.username) (hCreated : s.pc p = .done (.account a'))
    (hCreated' : s.pc q = .done (.account b')) : p = q := by
  obtain ⟨hLog, a₁, ⟨⟩, ha⟩ := h.created p a' hCreated _ hp
  obtain ⟨hLog', b₁, ⟨⟩, hb⟩ := h.created q b' hCreated' _ hq
  have hNames := h.usernames
  rw [h.history, List.map_cons, List.nodup_cons, List.map_map] at hNames
  have hEntry := List.inj_on_of_nodup_map hNames.2 hLog hLog'
    (show a'.username = b'.username from ha.symm.trans (hName.trans hb))
  exact congrArg Prod.fst hEntry

/-- **Accounts.** Usernames and ids stay unique and acceptable, one registration of a username
comes through, and a login answers exactly the account that has been stored. -/
theorem accounts_consistent {tr : List (AccountAction P)} (h : Run (Step requests) seeded tr s) :
    (s.rows.map Account.username).Nodup ∧ (s.rows.map Account.accountId).Nodup ∧
      (∀ a ∈ s.rows, Acceptable a) ∧
      (∀ p q a b a' b', requests p = .registerUser (some a) →
        requests q = .registerUser (some b) → a.username = b.username →
          s.pc p = .done (.account a') → s.pc q = .done (.account b') → p = q) ∧
      ∀ p a key, requests p = .login (some a) → s.pc p = .start →
        ∃ t, Step requests s ⟨p, key⟩ t ∧ ∀ b, t.pc p = .done (.account b) ↔
          s.Stored b ∧ b.username = a.username ∧ b.password = a.password := by
  have hInv := inv_of_run h
  refine ⟨hInv.usernames, hInv.ids, hInv.acceptable, ?_, ?_⟩
  · intro p q a b a' b' hp hq hName hCreated hCreated'
    exact hInv.created_unique hp hq hName hCreated hCreated'
  · intro p a key hRequest hStart
    obtain ⟨answer, hVerify, hAnswer⟩ := hInv.verifyAccount a.username a.password
    refine ⟨s.login p (some a), ?_, fun b => ?_⟩
    · simp only [Step, Accounts.step, hStart, hRequest]
    · rw [hInv.stored_iff, eq_comm (a := b.username), eq_comm (a := b.password), ← hAnswer b]
      unfold Accounts.login
      dsimp only
      rw [hVerify]
      cases answer with
      | none =>
        dsimp only
        rw [goto_self]
        exact ⟨nofun, nofun⟩
      | some c =>
        dsimp only
        rw [goto_self]
        constructor
        · rintro ⟨⟩
          rfl
        · rintro ⟨⟩
          rfl

/-- Two clients register the same username, others log in with it. -/
def bobs (p : Nat) : AccountRequest :=
  let bob : Account := ⟨0, some (javaString "bob"), some (javaString "secret")⟩
  if p < 2 then .registerUser (some bob) else .login (some bob)

/-- Both registrations find the username free; the second `INSERT` fails. -/
theorem accounts_consistent_bobs : ∃ s t : Accounts Nat, s.rows.map Account.accountId = [1, 2] ∧
    (s.rows.map Account.username).Nodup ∧ Step bobs s ⟨2, 4⟩ t ∧
      t.pc 2 = .done (.account ⟨2, some (javaString "bob"), some (javaString "secret")⟩) := by
  obtain ⟨s, hRun, hIds, hStart, hLog⟩ : ∃ s : Accounts Nat,
      Run (Step bobs) seeded [⟨0, 2⟩, ⟨1, 2⟩, ⟨0, 2⟩, ⟨1, 3⟩] s ∧
        s.rows.map Account.accountId = [1, 2] ∧ s.pc 2 = .start ∧
          (0, ⟨2, some (javaString "bob"), some (javaString "secret")⟩) ∈ s.log :=
    ⟨_, Run.of_foldlM rfl, rfl, rfl, List.mem_singleton_self _⟩
  obtain ⟨hNames, -, -, -, hLogin⟩ := accounts_consistent hRun
  obtain ⟨t, hStep, hAnswer⟩ := hLogin 2 _ 4 rfl hStart
  exact ⟨s, t, hIds, hNames, hStep, (hAnswer _).mpr ⟨Or.inr ⟨0, hLog⟩, rfl, rfl⟩⟩

end Accounts

end Windborne.Javalin
