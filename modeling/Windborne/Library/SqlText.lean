import Mathlib.Data.List.Basic
import Mathlib.Tactic.SplitIfs
import Windborne.Library.Results

/-!
# Texts of SQL scripts

A script is read character by character by a transducer, so the tokens of a concatenation
are those of its parts. Inside a string literal a quote ends the literal, and a doubled quote
stands for one. A script is a list of statements that end with semicolons. An `INSERT` of
literal values is read in full; other statements keep their tokens. The alphabet, the
keywords and the separators are those of a `SqlSyntax`.
-/

namespace Windborne.Library

variable {α : Type}

inductive CharKind where
  | space
  | newline
  | letter
  | dash
  | symbol
  deriving DecidableEq

/-- The characters and keywords that the grammar knows. -/
structure SqlSyntax (α : Type) where
  kind : α → CharKind
  quote : α
  comma : α
  openParen : α
  closeParen : α
  semicolon : α
  insertWord : List α
  intoWord : List α
  valuesWord : List α
  comma_ne_closeParen : comma ≠ closeParen

inductive Token (α : Type) where
  | word (w : List α)
  | literal (v : List α)
  | symbol (c : α)
  deriving DecidableEq

/-- What has been read of the token under way. -/
inductive LexState (α : Type) where
  | start
  | word (w : List α)
  | literal (v : List α)
  | quote (v : List α)
  | dash (c : α)
  | comment

/-! ## The transducer -/

section Lexer

variable [DecidableEq α] (S : SqlSyntax α)

/-- A character between two tokens. -/
def lexStart (c : α) : List (Token α) × LexState α :=
  if c = S.quote then ([], .literal [])
  else
    match S.kind c with
    | .space | .newline => ([], .start)
    | .letter => ([], .word [c])
    | .dash => ([], .dash c)
    | .symbol => ([.symbol c], .start)

/-- The tokens that are complete with the next character, and the state after it. -/
def lexStep : LexState α → α → List (Token α) × LexState α
  | .start, c => lexStart S c
  | .word w, c =>
    if c ≠ S.quote ∧ S.kind c = .letter then ([], .word (w ++ [c]))
    else (.word w :: (lexStart S c).1, (lexStart S c).2)
  | .literal v, c => if c = S.quote then ([], .quote v) else ([], .literal (v ++ [c]))
  | .quote v, c =>
    if c = S.quote then ([], .literal (v ++ [c]))
    else (.literal v :: (lexStart S c).1, (lexStart S c).2)
  | .dash d, c =>
    if c ≠ S.quote ∧ S.kind c = .dash then ([], .comment)
    else (.symbol d :: (lexStart S c).1, (lexStart S c).2)
  | .comment, c => if S.kind c = .newline then ([], .start) else ([], .comment)

def lexRun : LexState α → List α → List (Token α) × LexState α
  | s, [] => ([], s)
  | s, c :: cs =>
    ((lexStep S s c).1 ++ (lexRun (lexStep S s c).2 cs).1, (lexRun (lexStep S s c).2 cs).2)

/-- The token that the end of the text completes. A literal must have been closed. -/
def lexEnd : LexState α → Option (List (Token α))
  | .start | .comment => some []
  | .word w => some [.word w]
  | .literal _ => none
  | .quote v => some [.literal v]
  | .dash d => some [.symbol d]

def lexFrom (s : LexState α) (text : List α) : Option (List (Token α)) :=
  (lexEnd (lexRun S s text).2).map ((lexRun S s text).1 ++ ·)

/-- The tokens of a text. -/
def lex (text : List α) : Option (List (Token α)) := lexFrom S .start text

variable {S} {s : LexState α} {v w x : List α} {c : α} {text rest : List α}

theorem lexRun_append (s : LexState α) (xs ys : List α) :
    lexRun S s (xs ++ ys) = ((lexRun S s xs).1 ++ (lexRun S (lexRun S s xs).2 ys).1,
      (lexRun S (lexRun S s xs).2 ys).2) := by
  induction xs generalizing s with
  | nil => rfl
  | cons c xs ih =>
    rw [List.cons_append, lexRun, ih, lexRun]
    simp only [List.append_assoc]

theorem lexFrom_append (s : LexState α) (xs ys : List α) :
    lexFrom S s (xs ++ ys) = (lexFrom S (lexRun S s xs).2 ys).map ((lexRun S s xs).1 ++ ·) := by
  unfold lexFrom
  rw [lexRun_append, Option.map_map]
  congr 1
  ext ts : 1
  simp

theorem lexFrom_cons (s : LexState α) (c : α) (cs : List α) :
    lexFrom S s (c :: cs) =
      (lexFrom S (lexStep S s c).2 cs).map ((lexStep S s c).1 ++ ·) := by
  rw [← List.singleton_append, lexFrom_append]
  simp [lexRun]

/-! ## Literals -/

/-- A text in which every quote is doubled. -/
def escape (q : α) (v : List α) : List α := v.flatMap fun c => if c = q then [c, c] else [c]

theorem escape_cons (q c : α) (v : List α) :
    escape q (c :: v) = (if c = q then [c, c] else [c]) ++ escape q v := List.flatMap_cons

/-- **What a literal says.** A literal that is read from a text is the text up to the closing
quote with its doubled quotes undone. -/
theorem text_of_literal :
    (∀ v ts, lexFrom S (.literal v) text = some (.literal w :: ts) →
      ∃ x rest, w = v ++ x ∧ text = escape S.quote x ++ S.quote :: rest) ∧
    ∀ v ts, lexFrom S (.quote v) text = some (.literal w :: ts) →
      w = v ∨ ∃ x rest, w = v ++ S.quote :: x ∧
        text = S.quote :: escape S.quote x ++ S.quote :: rest := by
  induction text with
  | nil =>
    constructor
    · intro v ts h
      simp [lexFrom, lexRun, lexEnd] at h
    · intro v ts h
      simp [lexFrom, lexRun, lexEnd] at h
      exact Or.inl h.1.symm
  | cons c cs ih =>
    obtain ⟨ihLiteral, ihQuote⟩ := ih
    constructor
    · intro v ts h
      rw [lexFrom_cons, lexStep] at h
      by_cases hc : c = S.quote
      · rw [if_pos hc] at h
        simp only [List.nil_append, Option.map_id'] at h
        rcases ihQuote v ts h with rfl | ⟨x, rest, rfl, rfl⟩
        · exact ⟨[], cs, by simp, by simp [escape, hc]⟩
        · refine ⟨S.quote :: x, rest, rfl, ?_⟩
          rw [escape_cons, if_pos rfl, hc]
          rfl
      · rw [if_neg hc] at h
        simp only [List.nil_append, Option.map_id'] at h
        obtain ⟨x, rest, rfl, rfl⟩ := ihLiteral _ ts h
        refine ⟨c :: x, rest, by simp, ?_⟩
        rw [escape_cons, if_neg hc]
        rfl
    · intro v ts h
      rw [lexFrom_cons, lexStep] at h
      by_cases hc : c = S.quote
      · rw [if_pos hc] at h
        simp only [List.nil_append, Option.map_id'] at h
        obtain ⟨x, rest, rfl, rfl⟩ := ihLiteral _ ts h
        exact Or.inr ⟨x, rest, by simp [hc], by simp [hc]⟩
      · rw [if_neg hc] at h
        obtain ⟨ts', -, hTokens⟩ := Option.map_eq_some_iff.mp h
        exact Or.inl (Token.literal.inj (List.cons.inj hTokens).1).symm

theorem count_escape (q : α) (v : List α) : (escape q v).count q = 2 * v.count q := by
  induction v with
  | nil => rfl
  | cons c v ih =>
    rw [escape_cons, List.count_append, ih]
    by_cases hc : c = q
    · simp [hc]
      omega
    · simp [hc]

theorem length_escape (q : α) (v : List α) : (escape q v).length = v.length + v.count q := by
  induction v with
  | nil => rfl
  | cons c v ih =>
    rw [escape_cons, List.length_append, ih]
    by_cases hc : c = q
    · simp [hc]
      omega
    · simp [hc]
      omega

/-- A text that is put between quotes as it is reads as itself only if it has no quote. -/
theorem not_mem_of_escape {q : α} {rest' : List α} (hRest : rest.head? ≠ some q)
    (h : v ++ q :: rest = escape q v ++ q :: rest') : q ∉ v := by
  intro hMem
  have hPos : 0 < v.count q := List.count_pos_iff.mpr hMem
  have hTake := congrArg (fun t => (t.take (v.length + v.count q + 1)).count q) h
  have hLong : v.length + v.count q + 1 = v.length + (v.count q + 1) := by omega
  have hEscape : v.length + v.count q + 1 = (escape q v).length + 1 := by rw [length_escape]
  rw [hLong, List.take_length_add_append, ← hLong, hEscape, List.take_length_add_append] at hTake
  simp only [List.take_succ_cons, List.take_zero, List.count_append, List.count_cons_self,
    count_escape, List.count_nil] at hTake
  -- the quotes that `v` is short of would have to follow the closing quote
  have hAll : (rest.take (v.count q)).count q = v.count q := by omega
  cases rest with
  | nil =>
    simp at hAll
    omega
  | cons c rest =>
    have hc : c ≠ q := fun hEq => hRest (by simp [hEq])
    obtain ⟨n, hn⟩ : ∃ n, v.count q = n + 1 := ⟨v.count q - 1, by omega⟩
    rw [hn, List.take_succ_cons, List.count_cons_of_ne hc] at hAll
    have hLe := List.count_le_length (a := q) (l := rest.take n)
    rw [List.length_take] at hLe
    omega

theorem lexRun_literal (hv : S.quote ∉ w) (v : List α) :
    lexRun S (.literal v) w = ([], .literal (v ++ w)) := by
  induction w generalizing v with
  | nil => simp [lexRun]
  | cons c w ih =>
    rw [List.mem_cons, not_or] at hv
    have hc : c ≠ S.quote := fun h => hv.1 h.symm
    rw [lexRun, lexStep, if_neg hc, ih hv.2]
    simp

/-- A text put between quotes that is read as itself has no quote. -/
theorem not_mem_of_lexFrom {ts : List (Token α)} (hc : c ≠ S.quote)
    (h : lexFrom S (.literal []) (v ++ S.quote :: c :: rest) = some (.literal v :: ts)) :
    S.quote ∉ v := by
  obtain ⟨x, rest', hx, hText⟩ := text_of_literal.1 _ _ h
  rw [List.nil_append] at hx
  subst hx
  exact not_mem_of_escape (by simpa using hc) hText

theorem lexFrom_raw (hv : S.quote ∉ v) (hc : c ≠ S.quote) :
    lexFrom S (.literal []) (v ++ S.quote :: c :: rest) =
      (lexFrom S .start (c :: rest)).map (.literal v :: ·) := by
  rw [lexFrom_append, lexRun_literal hv, lexFrom_cons, lexFrom_cons, lexFrom_cons]
  simp only [lexStep, List.nil_append, if_true, if_neg hc, Option.map_map]
  congr 1

end Lexer

/-! ## Statements -/

/-- An `INSERT` of literal values. -/
structure Insert (α : Type) where
  table : List α
  columns : List (List α)
  values : List (List α)

inductive Statement (α : Type) where
  | insert (i : Insert α)
  | other (tokens : List (Token α))

section Parser

variable [DecidableEq α] (S : SqlSyntax α)

def Token.word? : Token α → Option (List α)
  | .word w => some w
  | _ => none

def Token.literal? : Token α → Option (List α)
  | .literal v => some v
  | _ => none

/-- Items with commas between them and a closing parenthesis after the last. -/
def parseItems (item : Token α → Option (List α)) :
    List (Token α) → Option (List (List α) × List (Token α))
  | t :: .symbol c :: rest =>
    if c = S.comma then do
      let x ← item t
      let (xs, rest) ← parseItems item rest
      return (x :: xs, rest)
    else if c = S.closeParen then do
      let x ← item t
      return ([x], rest)
    else none
  | _ => none

def parseInsert : List (Token α) → Option (Insert α)
  | .word first :: .word second :: .word table :: .symbol c :: rest =>
    if first = S.insertWord ∧ second = S.intoWord ∧ c = S.openParen then do
      match ← parseItems S Token.word? rest with
      | (columns, .word third :: .symbol d :: rest) =>
        if third = S.valuesWord ∧ d = S.openParen then do
          match ← parseItems S Token.literal? rest with
          | (values, []) => return ⟨table, columns, values⟩
          | _ => none
        else none
      | _ => none
    else none
  | _ => none

def parseStatement (ts : List (Token α)) : Statement α :=
  match parseInsert S ts with
  | some i => .insert i
  | none => .other ts

/-- The tokens before the first semicolon, and the groups after it. -/
def splitStatements : List (Token α) → List (Token α) × List (List (Token α))
  | [] => ([], [])
  | t :: ts =>
    if t = .symbol S.semicolon then ([], (splitStatements ts).1 :: (splitStatements ts).2)
    else (t :: (splitStatements ts).1, (splitStatements ts).2)

/-- The statements of a text. Between two semicolons there may be none. -/
def readScript (text : List α) : Option (List (Statement α)) := do
  let groups := splitStatements S (← lex S text)
  return ((groups.1 :: groups.2).filter (· ≠ [])).map (parseStatement S)

/-! ## Printing -/

def itemTokens (print : List α → Token α) : List (List α) → List (Token α)
  | [] => []
  | [x] => [print x, .symbol S.closeParen]
  | x :: xs => print x :: .symbol S.comma :: itemTokens print xs

/-- The tokens of a statement, without the semicolon. -/
def Insert.tokens (i : Insert α) : List (Token α) :=
  .word S.insertWord :: .word S.intoWord :: .word i.table :: .symbol S.openParen ::
    (itemTokens S .word i.columns ++ (.word S.valuesWord :: .symbol S.openParen ::
      itemTokens S .literal i.values))

variable {S}

theorem parseItems_sound {item : Token α → Option (List α)} {print : List α → Token α}
    (hItem : ∀ t x, item t = some x → t = print x) {ts rest : List (Token α)}
    {xs : List (List α)} (h : parseItems S item ts = some (xs, rest)) :
    xs ≠ [] ∧ ts = itemTokens S print xs ++ rest := by
  induction ts using parseItems.induct S generalizing xs with
  | case1 t rest' ih =>
    rw [parseItems, if_pos rfl] at h
    obtain ⟨x, hx, h⟩ := Option.bind_eq_some_iff.mp h
    obtain ⟨⟨ys, rest''⟩, hRest, h⟩ := Option.bind_eq_some_iff.mp h
    cases h
    obtain ⟨hNe, rfl⟩ := ih hRest
    refine ⟨List.cons_ne_nil _ _, ?_⟩
    rw [hItem t x hx]
    cases ys with
    | nil => exact absurd rfl hNe
    | cons y ys => rfl
  | case2 t rest' hComma =>
    rw [parseItems, if_neg hComma, if_pos rfl] at h
    obtain ⟨x, hx, h⟩ := Option.bind_eq_some_iff.mp h
    cases h
    exact ⟨List.cons_ne_nil _ _, by rw [hItem t x hx]; rfl⟩
  | case3 t c rest' hComma hClose =>
    rw [parseItems, if_neg hComma, if_neg hClose] at h
    cases h
  | case4 ts hShape =>
    rw [parseItems] at h
    · cases h
    · exact hShape

theorem parseItems_itemTokens {item : Token α → Option (List α)} {print : List α → Token α}
    (hItem : ∀ x, item (print x) = some x) {xs : List (List α)} (hNe : xs ≠ [])
    (rest : List (Token α)) :
    parseItems S item (itemTokens S print xs ++ rest) = some (xs, rest) := by
  induction xs with
  | nil => exact absurd rfl hNe
  | cons x xs ih =>
    cases xs with
    | nil => simp [itemTokens, parseItems, S.comma_ne_closeParen.symm, hItem]
    | cons y ys =>
      have hRest := ih (List.cons_ne_nil y ys)
      simp [itemTokens, parseItems, hItem, hRest]

omit [DecidableEq α] in
theorem word?_eq_some {t : Token α} {x : List α} (h : t.word? = some x) : t = .word x := by
  cases t <;> cases h
  rfl

omit [DecidableEq α] in
theorem literal?_eq_some {t : Token α} {x : List α} (h : t.literal? = some x) :
    t = .literal x := by
  cases t <;> cases h
  rfl

/-- What is read as an `INSERT` is its tokens and nothing else. -/
theorem parseInsert_sound {ts : List (Token α)} {i : Insert α} (h : parseInsert S ts = some i) :
    ts = i.tokens S := by
  unfold parseInsert at h
  split at h
  · split_ifs at h with hInsert
    obtain ⟨⟨columns, rest⟩, hColumns, h⟩ := Option.bind_eq_some_iff.mp h
    obtain ⟨-, hPrint⟩ := parseItems_sound (fun _ _ => word?_eq_some) hColumns
    split at h
    · rename_i hRest
      cases hRest
      split_ifs at h with hValuesWord
      obtain ⟨⟨values, last⟩, hValues, h⟩ := Option.bind_eq_some_iff.mp h
      obtain ⟨-, hPrint'⟩ := parseItems_sound (fun _ _ => literal?_eq_some) hValues
      split at h
      · rename_i hLast
        cases hLast
        cases h
        obtain ⟨rfl, rfl, rfl⟩ := hInsert
        obtain ⟨rfl, rfl⟩ := hValuesWord
        rw [hPrint, hPrint', List.append_nil]
        rfl
      · cases h
    · cases h
  · cases h

theorem parseInsert_tokens {i : Insert α} (hColumns : i.columns ≠ []) (hValues : i.values ≠ []) :
    parseInsert S (i.tokens S) = some i := by
  have hWord : ∀ rest, parseItems S Token.word? (itemTokens S .word i.columns ++ rest) =
      some (i.columns, rest) := parseItems_itemTokens (fun _ => rfl) hColumns
  have hLiteral : ∀ rest, parseItems S Token.literal? (itemTokens S .literal i.values ++ rest) =
      some (i.values, rest) := parseItems_itemTokens (fun _ => rfl) hValues
  have hEnd := hLiteral []
  rw [List.append_nil] at hEnd
  simp [parseInsert, Insert.tokens, hWord, hEnd]

theorem splitStatements_fst (ts : List (Token α)) :
    (splitStatements S ts).1 = ts.takeWhile (· ≠ .symbol S.semicolon) := by
  induction ts with
  | nil => rfl
  | cons t ts ih =>
    rw [splitStatements]
    split_ifs with ht
    · simp [ht]
    · simp [ht, ih]

theorem splitStatements_append {ts : List (Token α)} (h : .symbol S.semicolon ∉ ts) :
    splitStatements S (ts ++ [.symbol S.semicolon]) = (ts, [[]]) := by
  induction ts with
  | nil => simp [splitStatements]
  | cons t ts ih =>
    rw [List.mem_cons, not_or] at h
    rw [List.cons_append, splitStatements, if_neg (Ne.symm h.1), ih h.2]

/-- The tokens of an `INSERT` and a semicolon are read as that `INSERT`. -/
theorem readScript_tokens {text : List α} {i : Insert α} (hColumns : i.columns ≠ [])
    (hValues : i.values ≠ []) (hSemicolon : .symbol S.semicolon ∉ i.tokens S)
    (hLex : lex S text = some (i.tokens S ++ [.symbol S.semicolon])) :
    readScript S text = some [.insert i] := by
  have hNe : i.tokens S ≠ [] := List.cons_ne_nil _ _
  rw [readScript, hLex]
  simp [splitStatements_append hSemicolon, hNe, parseStatement,
    parseInsert_tokens hColumns hValues]

/-- A script that starts with a token other than a semicolon and is one `INSERT`. -/
theorem tokens_of_readScript {text : List α} {i : Insert α} {t : Token α} {ts : List (Token α)}
    (hLex : lex S text = some (t :: ts)) (ht : t ≠ .symbol S.semicolon)
    (h : readScript S text = some [.insert i]) :
    (t :: ts).takeWhile (· ≠ .symbol S.semicolon) = i.tokens S := by
  have hFirst := splitStatements_fst (S := S) (t :: ts)
  have hNe : (splitStatements S (t :: ts)).1 ≠ [] := by
    rw [hFirst, List.takeWhile_cons_of_pos (by simpa using ht)]
    exact List.cons_ne_nil _ _
  rw [readScript, hLex] at h
  have h' := Option.some.inj h
  rw [List.filter_cons_of_pos (by simpa using hNe), List.map_cons, List.cons.injEq] at h'
  obtain ⟨hStatement, -⟩ := h'
  rw [← hFirst]
  unfold parseStatement at hStatement
  split at hStatement
  · rename_i i' hParse
    cases hStatement
    exact parseInsert_sound hParse
  · cases hStatement

end Parser

end Windborne.Library
