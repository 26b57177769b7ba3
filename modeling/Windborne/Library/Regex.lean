import Mathlib.Data.List.TakeWhile

/-!
# Regular expressions with backtracking

An expression leads from a position of a text to a list of positions, in the order in which a
backtracking matcher tries them; an atomic group keeps the first only. A possessive quantifier is
the atomic group of the greedy one. What a line terminator is, and whether there is a word
character on either side of a position, are parameters.

Patterns are read from a string with the syntax of `java.util.regex`: characters, the dot, the
word boundary, groups, alternatives, and the greedy and possessive quantifiers of repetition.
-/

namespace Windborne.Library

variable {α : Type}

/-- What is before a position, backwards, and what is after it. -/
structure Position (α : Type) where
  before : List α
  after : List α
  deriving DecidableEq

structure TextRules (α : Type) where
  terminator : α → Bool
  left : Position α → Bool
  right : Position α → Bool

inductive Regex (α : Type) where
  | empty
  | char (c : α)
  | any
  | boundary
  | seq (r s : Regex α)
  | alt (r s : Regex α)
  | star (r : Regex α)
  | atomic (r : Regex α)
  deriving DecidableEq

namespace Regex

def plus (r : Regex α) : Regex α := .seq r (.star r)

def sequence (rs : List (Regex α)) : Regex α := rs.foldr .seq .empty

def literal (word : List α) : Regex α := sequence (word.map .char)

/-! ## The matcher -/

/-- As many rounds as possible first. -/
def greedy (round : Position α → List (Position α)) : Nat → Position α → List (Position α)
  | 0, p => [p]
  | n + 1, p => (round p).flatMap (greedy round n) ++ [p]

/-- One character that passes the test. -/
def consume (test : α → Bool) (p : Position α) : List (Position α) :=
  match p.after with
  | [] => []
  | c :: after => if test c then [⟨c :: p.before, after⟩] else []

variable [DecidableEq α]

def ends (rules : TextRules α) : Regex α → Position α → List (Position α)
  | .empty, p => [p]
  | .char c, p => consume (· = c) p
  | .any, p => consume (fun c => !rules.terminator c) p
  | .boundary, p => if rules.left p ≠ rules.right p then [p] else []
  | .seq r s, p => (ends rules r p).flatMap (ends rules s)
  | .alt r s, p => ends rules r p ++ ends rules s p
  | .star r, p => greedy (ends rules r) p.after.length p
  | .atomic r, p => (ends rules r p).take 1

/-- Some attempt ends at the end of the text. -/
def matchesAll (rules : TextRules α) (r : Regex α) (text : List α) : Bool :=
  (ends rules r ⟨[], text⟩).any fun q => q.after.isEmpty

/-! ## Where an expression leads -/

def Reaches (rules : TextRules α) (r : Regex α) (p q : Position α) : Prop := q ∈ ends rules r p

omit [DecidableEq α] in
/-- The text between two positions. -/
def Consumes (p : Position α) (word : List α) (q : Position α) : Prop :=
  p.after = word ++ q.after ∧ q.before = word.reverse ++ p.before

section Consumes

variable {p q m : Position α} {v w : List α} {c : α}

omit [DecidableEq α]

theorem consumes_nil : Consumes p [] q ↔ q = p := by
  obtain ⟨before, after⟩ := p
  obtain ⟨before', after'⟩ := q
  simp [Consumes, eq_comm, and_comm]

theorem Consumes.trans (h : Consumes p v m) (h' : Consumes m w q) : Consumes p (v ++ w) q := by
  obtain ⟨hAfter, hBefore⟩ := h
  obtain ⟨hAfter', hBefore'⟩ := h'
  constructor
  · rw [hAfter, hAfter', List.append_assoc]
  · rw [hBefore', hBefore, List.reverse_append, List.append_assoc]

theorem consumes_append : Consumes p (v ++ w) q ↔ ∃ m, Consumes p v m ∧ Consumes m w q := by
  constructor
  · intro ⟨hAfter, hBefore⟩
    refine ⟨⟨v.reverse ++ p.before, w ++ q.after⟩, ⟨?_, rfl⟩, ⟨rfl, ?_⟩⟩
    · rw [hAfter, List.append_assoc]
    · rw [hBefore, List.reverse_append, List.append_assoc]
  · intro ⟨m, hv, hw⟩
    exact hv.trans hw

theorem consumes_cons : Consumes p (c :: w) q ↔ ∃ m, Consumes p [c] m ∧ Consumes m w q :=
  consumes_append (v := [c])

theorem consume_cons (test : α → Bool) (before after : List α) (c : α) :
    consume test ⟨before, c :: after⟩ = if test c then [⟨c :: before, after⟩] else [] := rfl

theorem mem_consume {test : α → Bool} :
    q ∈ consume test p ↔ ∃ c, test c = true ∧ Consumes p [c] q := by
  obtain ⟨before, after⟩ := p
  cases after with
  | nil => simp [consume, Consumes]
  | cons c after =>
    constructor
    · intro hMem
      rw [consume_cons] at hMem
      split at hMem
      · rename_i hTest
        cases List.mem_singleton.mp hMem
        exact ⟨c, hTest, rfl, rfl⟩
      · cases hMem
    · intro ⟨d, hTest, hAfter, hBefore⟩
      cases hAfter
      rw [consume_cons, if_pos hTest, List.mem_singleton]
      exact congrArg (fun before => Position.mk before q.after) hBefore

/-! ## Repetition -/

/-- The greedy rounds stop at any character of a run that passes the test. -/
theorem mem_greedy_consume {test : α → Bool} {n : Nat} (h : p.after.length ≤ n) :
    q ∈ greedy (consume test) n p ↔ ∃ w, Consumes p w q ∧ ∀ c ∈ w, test c = true := by
  induction n generalizing p with
  | zero =>
    have hEnd : p.after = [] := List.eq_nil_of_length_eq_zero (Nat.le_zero.mp h)
    rw [greedy, List.mem_singleton]
    constructor
    · intro hq
      exact ⟨[], consumes_nil.mpr hq, nofun⟩
    · rintro ⟨w, hw, -⟩
      have hNil : w = [] := by
        have hAfter := hw.1
        rw [hEnd] at hAfter
        exact (List.append_eq_nil_iff.mp hAfter.symm).1
      subst hNil
      exact consumes_nil.mp hw
  | succ n ih =>
    rw [greedy, List.mem_append, List.mem_flatMap, List.mem_singleton]
    constructor
    · intro hMem
      rcases hMem with ⟨m, hm, hq⟩ | hq
      · obtain ⟨c, hTest, hc⟩ := mem_consume.mp hm
        have hShort : m.after.length ≤ n := by
          rw [hc.1] at h
          simp only [List.length_append, List.length_singleton] at h
          omega
        obtain ⟨w, hw, hAll⟩ := (ih hShort).mp hq
        exact ⟨c :: w, hc.trans hw, List.forall_mem_cons.mpr ⟨hTest, hAll⟩⟩
      · exact ⟨[], consumes_nil.mpr hq, nofun⟩
    · intro ⟨w, hw, hAll⟩
      cases w with
      | nil => exact Or.inr (consumes_nil.mp hw)
      | cons c w =>
        obtain ⟨m, hc, hm⟩ := consumes_cons.mp hw
        obtain ⟨hTest, hRest⟩ := List.forall_mem_cons.mp hAll
        have hShort : m.after.length ≤ n := by
          rw [hc.1] at h
          simp only [List.length_append, List.length_singleton] at h
          omega
        exact Or.inl ⟨m, mem_consume.mpr ⟨c, hTest, hc⟩, (ih hShort).mpr ⟨w, hm, hRest⟩⟩

/-- The first attempt takes the whole run. -/
theorem head?_greedy_consume {test : α → Bool} {n : Nat} (h : p.after.length ≤ n) :
    (greedy (consume test) n p).head? =
      some ⟨(p.after.takeWhile test).reverse ++ p.before, p.after.dropWhile test⟩ := by
  induction n generalizing p with
  | zero =>
    have hEnd : p.after = [] := List.eq_nil_of_length_eq_zero (Nat.le_zero.mp h)
    rw [greedy, hEnd]
    exact congrArg (fun after => some (Position.mk p.before after)) hEnd
  | succ n ih =>
    obtain ⟨before, after⟩ := p
    cases after with
    | nil => rfl
    | cons c after =>
      rw [greedy, consume_cons]
      by_cases hTest : test c = true
      · have hShort := ih (p := ⟨c :: before, after⟩) (Nat.le_of_succ_le_succ h)
        rw [if_pos hTest, List.flatMap_singleton, List.head?_append, hShort,
          List.takeWhile_cons_of_pos hTest, List.dropWhile_cons_of_pos hTest]
        simp
      · rw [if_neg hTest, List.takeWhile_cons_of_neg hTest, List.dropWhile_cons_of_neg hTest]
        rfl

end Consumes

section Reaches

variable {rules : TextRules α} {r s : Regex α} {p q : Position α} {c : α}

theorem matchesAll_iff (rules : TextRules α) (r : Regex α) (text : List α) :
    matchesAll rules r text = true ↔ ∃ before, Reaches rules r ⟨[], text⟩ ⟨before, []⟩ := by
  unfold matchesAll Reaches
  rw [List.any_eq_true]
  constructor
  · intro ⟨⟨before, after⟩, hMem, hEnd⟩
    cases List.isEmpty_iff.mp hEnd
    exact ⟨before, hMem⟩
  · intro ⟨before, hMem⟩
    exact ⟨_, hMem, rfl⟩

theorem reaches_empty : Reaches rules .empty p q ↔ q = p := List.mem_singleton

theorem reaches_char : Reaches rules (.char c) p q ↔ Consumes p [c] q := by
  unfold Reaches ends
  rw [mem_consume]
  simp

theorem reaches_boundary :
    Reaches rules .boundary p q ↔ q = p ∧ rules.left p ≠ rules.right p := by
  unfold Reaches ends
  split
  · rename_i hSides
    rw [List.mem_singleton, and_iff_left hSides]
  · rename_i hSides
    rw [not_not] at hSides
    simp [hSides]

theorem reaches_seq :
    Reaches rules (.seq r s) p q ↔ ∃ m, Reaches rules r p m ∧ Reaches rules s m q :=
  List.mem_flatMap

theorem reaches_alt :
    Reaches rules (.alt r s) p q ↔ Reaches rules r p q ∨ Reaches rules s p q :=
  List.mem_append

theorem reaches_star_any : Reaches rules (.star .any) p q ↔
    ∃ w, Consumes p w q ∧ ∀ c ∈ w, rules.terminator c = false := by
  unfold Reaches ends
  rw [show ends rules .any = consume fun c => !rules.terminator c from rfl,
    mem_greedy_consume (Nat.le_refl _)]
  simp only [Bool.not_eq_true']

theorem reaches_sequence_nil : Reaches rules (sequence []) p q ↔ q = p := reaches_empty

theorem reaches_sequence_cons {rs : List (Regex α)} :
    Reaches rules (sequence (r :: rs)) p q ↔
      ∃ m, Reaches rules r p m ∧ Reaches rules (sequence rs) m q := reaches_seq

/-- A match between word boundaries somewhere in a line. -/
theorem matchesAll_between (rules : TextRules α) (r : Regex α) (text : List α) :
    matchesAll rules (sequence [.star .any, .boundary, r, .boundary, .star .any]) text = true ↔
      ∃ before p q, Consumes ⟨[], text⟩ before p ∧ (rules.left p ≠ rules.right p) ∧
        Reaches rules r p q ∧ (rules.left q ≠ rules.right q) ∧
          (∀ c ∈ before, rules.terminator c = false) ∧
            ∀ c ∈ q.after, rules.terminator c = false := by
  rw [matchesAll_iff]
  simp only [reaches_sequence_cons, reaches_sequence_nil, reaches_boundary, reaches_star_any]
  constructor
  · rintro ⟨_, p, ⟨before, hp, hBefore⟩, _, ⟨rfl, hStart⟩, q, hr, _, ⟨rfl, hEnd⟩, m,
      ⟨after, ⟨hAfter, -⟩, hLine⟩, hm⟩
    rw [← hm] at hAfter
    refine ⟨before, _, _, hp, hStart, hr, hEnd, hBefore, ?_⟩
    rw [hAfter, List.append_nil]
    exact hLine
  · intro ⟨before, p, q, hp, hStart, hr, hEnd, hBefore, hAfter⟩
    refine ⟨q.after.reverse ++ q.before, p, ⟨before, hp, hBefore⟩, p, ⟨rfl, hStart⟩, q, hr, q,
      ⟨rfl, hEnd⟩, _, ⟨q.after, ⟨?_, rfl⟩, hAfter⟩, rfl⟩
    exact (List.append_nil _).symm

theorem reaches_literal {word : List α} :
    Reaches rules (literal word) p q ↔ Consumes p word q := by
  induction word generalizing p with
  | nil => exact reaches_empty.trans consumes_nil.symm
  | cons c word ih =>
    rw [consumes_cons]
    unfold literal at ih ⊢
    rw [List.map_cons, reaches_sequence_cons]
    simp only [reaches_char, ih]

theorem mem_take_one {β : Type} {b : β} {l : List β} : b ∈ l.take 1 ↔ l.head? = some b := by
  cases l with
  | nil => simp
  | cons a l => simp [eq_comm]

theorem ends_plus_char (rules : TextRules α) (c : α) (p : Position α) :
    ends rules (plus (.char c)) p =
      (consume (· = c) p).flatMap fun m => greedy (consume (· = c)) m.after.length m := rfl

/-- The first attempt takes all characters that are equal. -/
theorem head?_ends_plus_char (before after : List α) :
    (ends rules (plus (.char c)) ⟨before, c :: after⟩).head? =
      some ⟨(after.takeWhile (· = c)).reverse ++ c :: before, after.dropWhile (· = c)⟩ := by
  rw [ends_plus_char, consume_cons, if_pos (decide_eq_true rfl), List.flatMap_singleton]
  exact head?_greedy_consume (Nat.le_refl _)

/-- A run of one character that leaves none behind. -/
theorem reaches_possessive : Reaches rules (.atomic (plus (.char c))) p q ↔
    ∃ k, Consumes p (List.replicate (k + 1) c) q ∧ q.after.head? ≠ some c := by
  obtain ⟨before, after⟩ := p
  unfold Reaches ends
  rw [mem_take_one]
  constructor
  · intro hFirst
    cases after with
    | nil => cases hFirst
    | cons d after =>
      by_cases hSame : d = c
      · subst hSame
        rw [head?_ends_plus_char] at hFirst
        cases hFirst
        have hRun : after.takeWhile (· = d) =
            List.replicate (after.takeWhile (· = d)).length d :=
          List.eq_replicate_of_mem fun a ha => by simpa using List.mem_takeWhile_imp ha
        refine ⟨(after.takeWhile (· = d)).length, ⟨?_, ?_⟩, ?_⟩
        · rw [List.replicate_succ, ← hRun, List.cons_append, List.takeWhile_append_dropWhile]
        · rw [List.replicate_succ, ← hRun, List.reverse_cons, List.append_assoc,
            List.singleton_append]
        · intro hSome
          have hRest := List.head?_dropWhile_not (· = d) after
          rw [hSome] at hRest
          exact absurd (decide_eq_true rfl) (ne_true_of_eq_false hRest)
      · have hNone : ¬decide (d = c) = true := mt of_decide_eq_true hSame
        rw [ends_plus_char, consume_cons, if_neg hNone] at hFirst
        cases hFirst
  · obtain ⟨before', rest⟩ := q
    intro ⟨k, ⟨hAfter, hBefore⟩, hRest⟩
    dsimp only at hAfter hBefore hRest
    have hAll : ∀ a ∈ List.replicate k c, decide (a = c) = true := by
      intro a ha
      exact decide_eq_true (List.eq_of_mem_replicate ha)
    have hStop : rest.takeWhile (· = c) = [] ∧ rest.dropWhile (· = c) = rest := by
      cases rest with
      | nil => exact ⟨rfl, rfl⟩
      | cons d rest =>
        have hNe : ¬decide (d = c) = true := by
          intro hEq
          apply hRest
          rw [of_decide_eq_true hEq]
          rfl
        exact ⟨List.takeWhile_cons_of_neg hNe, List.dropWhile_cons_of_neg hNe⟩
    rw [hAfter, hBefore, List.replicate_succ, List.cons_append, head?_ends_plus_char,
      List.takeWhile_append_of_pos hAll, List.dropWhile_append_of_pos hAll, hStop.1, hStop.2,
      List.append_nil, List.reverse_cons, List.append_assoc]
    rfl

end Reaches

end Regex

/-! ## Patterns -/

namespace Pattern

inductive Token where
  | char (c : UInt16)
  | dot
  | boundary
  | star
  | starPossessive
  | plus
  | plusPossessive
  | opened
  | closed
  | bar
  deriving DecidableEq

def unit (c : Char) : UInt16 := c.toNat.toUInt16

/-- Characters with a meaning that is not read here. -/
def reserved : List UInt16 := ['^', '$', '?', '[', '{'].map unit

def tokens : List UInt16 → Option (List Token)
  | [] => some []
  | c :: rest =>
    if c = unit '\\' then
      match rest with
      | [] => none
      | d :: rest => if d = unit 'b' then (.boundary :: ·) <$> tokens rest else none
    else if c ∈ reserved then none
    else if c = unit '.' then (.dot :: ·) <$> tokens rest
    else if c = unit '*' then (.star :: ·) <$> tokens rest
    else if c = unit '+' then (.plus :: ·) <$> tokens rest
    else if c = unit '(' then (.opened :: ·) <$> tokens rest
    else if c = unit ')' then (.closed :: ·) <$> tokens rest
    else if c = unit '|' then (.bar :: ·) <$> tokens rest
    else (.char c :: ·) <$> tokens rest

/-- A `+` behind a quantifier makes it possessive. -/
def possessive : List Token → List Token
  | .star :: .plus :: ts => .starPossessive :: possessive ts
  | .plus :: .plus :: ts => .plusPossessive :: possessive ts
  | t :: ts => t :: possessive ts
  | [] => []

/-- A group that is being read: the alternatives so far and the items of the last one, both
backwards. -/
structure Group where
  alternatives : List (Regex UInt16)
  items : List (Regex UInt16)
  deriving DecidableEq

namespace Group

def new : Group := ⟨[], []⟩

def add (g : Group) (r : Regex UInt16) : Group := { g with items := r :: g.items }

/-- A quantifier for the last item. -/
def quantify (g : Group) (f : Regex UInt16 → Regex UInt16) : Option Group :=
  match g.items with
  | [] => none
  | r :: items => some { g with items := f r :: items }

def split (g : Group) : Group := ⟨.sequence g.items.reverse :: g.alternatives, []⟩

def regex (g : Group) : Regex UInt16 :=
  g.alternatives.foldl (fun r s => .alt s r) (.sequence g.items.reverse)

end Group

/-- The innermost group and the groups around it. -/
def step : Group × List Group → Token → Option (Group × List Group)
  | (g, outer), .char c => some (g.add (.char c), outer)
  | (g, outer), .dot => some (g.add .any, outer)
  | (g, outer), .boundary => some (g.add .boundary, outer)
  | (g, outer), .star => (g.quantify .star).map (·, outer)
  | (g, outer), .starPossessive => (g.quantify fun r => .atomic (.star r)).map (·, outer)
  | (g, outer), .plus => (g.quantify .plus).map (·, outer)
  | (g, outer), .plusPossessive => (g.quantify fun r => .atomic (.plus r)).map (·, outer)
  | (g, outer), .opened => some (.new, g :: outer)
  | (g, g' :: outer), .closed => some (g'.add g.regex, outer)
  | (_, []), .closed => none
  | (g, outer), .bar => some (g.split, outer)

/-- The expression of a pattern, or an error. -/
def compile (pattern : List UInt16) : Option (Regex UInt16) := do
  match ← (possessive (← tokens pattern)).foldlM step (.new, []) with
  | (g, []) => return g.regex
  | _ => none

end Pattern

end Windborne.Library
