import Windborne.Library.SqlText
import Windborne.Spring.Store

/-!
# Registration in the Javalin service

`addAccount` checks the account and `insertAccount` writes it into the text of an `INSERT`
with `String.format`. The text is read as the database reads it. The two values are the
given username and password exactly if neither contains a quote.
-/

namespace Windborne.Javalin

open Library
open Spring (JavaString javaString)

/-! ## The SQL that the database reads -/

/-- Characters of words: digits, letters, underscores and everything beyond ASCII. -/
def isLetter (c : UInt16) : Bool :=
  (48 ≤ c && c ≤ 57) || (65 ≤ c && c ≤ 90) || c == 95 || (97 ≤ c && c ≤ 122) || 128 ≤ c

def charKind (c : UInt16) : CharKind :=
  if c = 10 ∨ c = 13 then .newline
  else if c = 9 ∨ c = 32 then .space
  else if isLetter c then .letter
  else if c = 45 then .dash
  else .symbol

/-- SQL over UTF-16 code units. -/
def sql : SqlSyntax UInt16 where
  kind := charKind
  quote := 39
  comma := 44
  openParen := 40
  closeParen := 41
  semicolon := 59
  insertWord := javaString "INSERT"
  intoWord := javaString "INTO"
  valuesWord := javaString "VALUES"
  comma_ne_closeParen := by decide

/-! ## `AccountService` and `AccountDAO` -/

structure Account where
  accountId : Int
  username : Option JavaString
  password : Option JavaString

inductive Failure where
  | nullPointer
  deriving DecidableEq

/-- A method call on a reference. -/
def deref (x : Option JavaString) : Except Failure JavaString :=
  match x with
  | some text => .ok text
  | none => .error .nullPointer

/-- `addAccount` up to the call of `insertAccount`: the account that it passes on, or `none`
where it returns null itself. -/
def addAccount (getAccountByUsername : JavaString → Option Account) :
    Option Account → Except Failure (Option Account)
  | none => return none
  | some a => do
    if (← deref a.username) = [] then return none
    else if (← deref a.password).length < 4 then return none
    else if (getAccountByUsername (← deref a.username)).isSome then return none
    else return some a

/-- The conversion `%s`. -/
def formatArg (x : Option JavaString) : JavaString := x.getD (javaString "null")

/-- The text that `insertAccount` passes to `executeUpdate`. -/
def insertAccountSql (a : Account) : JavaString :=
  javaString "INSERT INTO account (username, password) VALUES ('" ++ formatArg a.username ++
    javaString "', '" ++ formatArg a.password ++ javaString "');"

/-- The statement that a registration is meant to be. -/
def insertStatement (username password : JavaString) : Insert UInt16 where
  table := javaString "account"
  columns := [javaString "username", javaString "password"]
  values := [username, password]

/-- The text of a registration is one `INSERT` of exactly the given strings. -/
def Faithful (a : Account) : Prop :=
  ∃ username password, a.username = some username ∧ a.password = some password ∧
    readScript sql (insertAccountSql a) = some [.insert (insertStatement username password)]

/-- Neither string contains a quote. -/
def Unquoted (a : Account) : Prop :=
  (∀ username ∈ a.username, sql.quote ∉ username) ∧
    ∀ password ∈ a.password, sql.quote ∉ password

/-! ## The tokens of the text -/

/-- The tokens in front of the two values. -/
def headTokens : List (Token UInt16) :=
  [.word (javaString "INSERT"), .word (javaString "INTO"), .word (javaString "account"),
    .symbol 40, .word (javaString "username"), .symbol 44, .word (javaString "password"),
    .symbol 41, .word (javaString "VALUES"), .symbol 40]

theorem lexRun_head :
    lexRun sql .start (javaString "INSERT INTO account (username, password) VALUES ('") =
      (headTokens, .literal []) := by
  rfl

variable {u p : JavaString}

/-- The text after the opening quote of the first value. -/
def valuesText (u p : JavaString) : JavaString :=
  u ++ sql.quote :: 44 :: ([32, 39] ++ (p ++ sql.quote :: 41 :: [59]))

theorem lex_insertAccountSql (id : Int) (u p : JavaString) :
    lex sql (insertAccountSql ⟨id, some u, some p⟩) =
      (lexFrom sql (.literal []) (valuesText u p)).map (headTokens ++ ·) := by
  have hText : insertAccountSql ⟨id, some u, some p⟩ =
      javaString "INSERT INTO account (username, password) VALUES ('" ++ valuesText u p := by
    simp only [insertAccountSql, formatArg, Option.getD_some, List.append_assoc]
    rfl
  rw [hText, lex, lexFrom_append, lexRun_head]

/-- The text between the two values. -/
theorem lexFrom_between (p : JavaString) :
    lexFrom sql .start (44 :: ([32, 39] ++ (p ++ sql.quote :: 41 :: [59]))) =
      (lexFrom sql (.literal []) (p ++ sql.quote :: 41 :: [59])).map (.symbol 44 :: ·) := by
  have hRun : lexRun sql .start [44, 32, 39] = ([.symbol 44], .literal []) := rfl
  have hText : 44 :: ([32, 39] ++ (p ++ sql.quote :: 41 :: [59])) =
      [44, 32, 39] ++ (p ++ sql.quote :: 41 :: [59]) := rfl
  rw [hText, lexFrom_append, hRun]
  rfl

theorem lexFrom_valuesText (hu : sql.quote ∉ u) :
    lexFrom sql (.literal []) (valuesText u p) =
      (lexFrom sql (.literal []) (p ++ sql.quote :: 41 :: [59])).map
        ([.literal u, .symbol 44] ++ ·) := by
  rw [valuesText, lexFrom_raw hu (by decide), lexFrom_between, Option.map_map]
  rfl

/-- Between them the three pieces are the statement. -/
theorem headTokens_append (u p : JavaString) :
    headTokens ++ [.literal u, .symbol 44, .literal p, .symbol 41] =
      (insertStatement u p).tokens sql := rfl

/-! ## When the text is faithful -/

theorem symbol_ne_semicolon {t : Token UInt16} (h : t ∈ (insertStatement u p).tokens sql) :
    t ≠ .symbol sql.semicolon := by
  rintro rfl
  rw [← headTokens_append] at h
  simp [headTokens, sql] at h

theorem readScript_of_unquoted (id : Int) (hu : sql.quote ∉ u) (hp : sql.quote ∉ p) :
    readScript sql (insertAccountSql ⟨id, some u, some p⟩) =
      some [.insert (insertStatement u p)] := by
  have hEnd : lexFrom sql .start [41, 59] = some [.symbol 41, .symbol 59] := rfl
  refine readScript_tokens (List.cons_ne_nil _ _) (List.cons_ne_nil _ _)
    (fun h => symbol_ne_semicolon h rfl) ?_
  rw [lex_insertAccountSql, lexFrom_valuesText hu, lexFrom_raw hp (by decide), hEnd]
  rfl

/-- The values that are read begin right after the head. -/
theorem tokens_of_faithful {id : Int}
    (h : readScript sql (insertAccountSql ⟨id, some u, some p⟩) =
      some [.insert (insertStatement u p)]) :
    ∃ ts, lexFrom sql (.literal []) (valuesText u p) =
      some (.literal u :: .symbol 44 :: .literal p :: ts) := by
  obtain ⟨all, hLex, -⟩ := Option.bind_eq_some_iff.mp h
  have hSplit := hLex
  rw [lex_insertAccountSql] at hSplit
  obtain ⟨ts, hTokens, rfl⟩ := Option.map_eq_some_iff.mp hSplit
  have hTake := tokens_of_readScript hLex (by simp) h
  have hHead : ∀ t ∈ headTokens, decide (t ≠ .symbol sql.semicolon) = true := by decide
  change (headTokens ++ ts).takeWhile _ = _ at hTake
  rw [← headTokens_append, List.takeWhile_append_of_pos hHead, List.append_cancel_left_eq] at hTake
  have hWhole := List.takeWhile_append_dropWhile (p := (· ≠ .symbol sql.semicolon)) (l := ts)
  rw [hTake] at hWhole
  rw [hTokens, ← hWhole]
  exact ⟨_, rfl⟩

theorem unquoted_of_readScript {id : Int}
    (h : readScript sql (insertAccountSql ⟨id, some u, some p⟩) =
      some [.insert (insertStatement u p)]) : sql.quote ∉ u ∧ sql.quote ∉ p := by
  obtain ⟨ts, hTokens⟩ := tokens_of_faithful h
  have hu : sql.quote ∉ u := not_mem_of_lexFrom (by decide) hTokens
  refine ⟨hu, ?_⟩
  rw [lexFrom_valuesText hu] at hTokens
  obtain ⟨ts', hTokens', hEq⟩ := Option.map_eq_some_iff.mp hTokens
  cases hEq
  exact not_mem_of_lexFrom (by decide) hTokens'

theorem deref_eq_ok {x : Option JavaString} {text : JavaString} (h : deref x = .ok text) :
    x = some text := by
  cases x <;> cases h
  rfl

/-- What an account that is passed on has been checked for. -/
theorem addAccount_ok {getAccountByUsername : JavaString → Option Account} {a : Option Account}
    {b : Account} (h : addAccount getAccountByUsername a = .ok (some b)) :
    a = some b ∧ ∃ u p, b.username = some u ∧ b.password = some p ∧ u ≠ [] ∧
      4 ≤ p.length ∧ getAccountByUsername u = none := by
  cases a with
  | none => cases h
  | some a =>
    obtain ⟨u, hu, h⟩ := bind_eq_ok.mp h
    split at h
    · cases h
    · rename_i hNonempty
      obtain ⟨p, hp, h⟩ := bind_eq_ok.mp h
      split at h
      · cases h
      · rename_i hLong
        rw [hu, ok_bind] at h
        split at h
        · cases h
        · rename_i hFree
          cases h
          exact ⟨rfl, u, p, deref_eq_ok hu, deref_eq_ok hp, hNonempty, Nat.le_of_not_lt hLong,
            Option.not_isSome_iff_eq_none.mp hFree⟩

/-- An empty username is rejected before the password is looked at. -/
example : addAccount (fun _ => none) (some ⟨0, some [], none⟩) = .ok none := rfl

/-- **Registrations.** An account that passes the checks is written faithfully exactly if
neither of its strings contains a quote. -/
theorem insertAccount_faithful_iff (getAccountByUsername : JavaString → Option Account)
    {a : Option Account} {b : Account} (h : addAccount getAccountByUsername a = .ok (some b)) :
    Faithful b ↔ Unquoted b := by
  obtain ⟨-, u, p, hu, hp, -⟩ := addAccount_ok h
  obtain ⟨id, username, password⟩ := b
  dsimp only at hu hp
  subst hu hp
  constructor
  · rintro ⟨u', p', ⟨⟩, ⟨⟩, hRead⟩
    obtain ⟨hu, hp⟩ := unquoted_of_readScript hRead
    exact ⟨by simpa using hu, by simpa using hp⟩
  · intro hUnquoted
    exact ⟨u, p, rfl, rfl,
      readScript_of_unquoted id (hUnquoted.1 u rfl) (hUnquoted.2 p rfl)⟩

/-- A registration with ordinary strings. -/
def alice : Account := ⟨0, some (javaString "alice"), some (javaString "secret")⟩

theorem insertAccount_faithful_iff_alice : Faithful alice := by
  apply (insertAccount_faithful_iff (fun _ => none) (a := some alice) rfl).mpr
  constructor
  · rintro username ⟨⟩
    decide
  · rintro password ⟨⟩
    decide

/-- A username with a quote. -/
def oneil : Account := ⟨0, some (javaString "O'Neil"), some (javaString "secret")⟩

theorem not_forall_faithful :
    ¬ ∀ (getAccountByUsername : JavaString → Option Account) (a b : Account),
      addAccount getAccountByUsername (some a) = .ok (some b) → Faithful b := by
  intro hAll
  obtain ⟨u, p, hu, -, hRead⟩ := hAll (fun _ => none) oneil oneil rfl
  have hNone : readScript sql (insertAccountSql oneil) = none := rfl
  rw [hNone] at hRead
  cases hRead

end Windborne.Javalin
