import Windborne.TechEntrance.JobFetch

/-!
# The filter of the job fetch

The pattern joins the names of the languages into alternatives between word boundaries, with a
run of dots on both sides, and has to match the contents of a posting as a whole. The dot stands
for no line terminator, so contents of several lines are not kept, and the third name is read as
the letter `C` with a possessive quantifier, so any word of `C`s alone is kept.
-/

namespace Windborne.TechEntrance

open Library
open Library.Regex (Consumes Reaches literal plus matchesAll)
open Spring (JavaString javaString)

/-! ## Text -/

/-- The rules of the regular expressions of Java. Which other characters, and which pairs of
units, are word characters differs between its versions. -/
structure JavaText (rules : TextRules UInt16) : Prop where
  terminator (c : UInt16) : rules.terminator c = decide (c ∈ lineTerminators)
  left (c : UInt16) (before after : JavaString) (h : c < 128) :
    rules.left ⟨c :: before, after⟩ = isWord c
  right (c : UInt16) (before after : JavaString) (h : c < 128) :
    rules.right ⟨before, c :: after⟩ = isWord c

theorem javaText_asciiRules : JavaText asciiRules where
  terminator _ := rfl
  left _ _ _ _ := rfl
  right _ _ _ _ := rfl

/-! ## What should be kept -/

/-- The word occurs with no word character directly before or after it. -/
def Stands (rules : TextRules UInt16) (word text : JavaString) : Prop :=
  ∃ before after, text = before ++ word ++ after ∧
    rules.left ⟨before.reverse, word ++ after⟩ = false ∧
      rules.right ⟨(before ++ word).reverse, after⟩ = false

/-- One of the languages occurs. -/
def Mentions (rules : TextRules UInt16) (text : JavaString) : Prop :=
  ∃ name ∈ tokens, Stands rules name text

def OneLine (text : JavaString) : Prop := ∀ c ∈ text, c ∉ lineTerminators

def lettersC (k : Nat) : JavaString := List.replicate (k + 1) (Pattern.unit 'C')

/-- No language in several lines, and no word of the letter `C` alone in a line without a
language. -/
structure Filterable (rules : TextRules UInt16) (text : JavaString) : Prop where
  lines : ¬OneLine text → ¬Mentions rules text
  letters : OneLine text → (∃ k, Stands rules (lettersC k) text) → Mentions rules text

/-! ## What is kept -/

section Filter

variable {rules : TextRules UInt16} {text word : JavaString} {p q : Position UInt16}

theorem pattern_eq : pattern = some (Regex.sequence [.star .any, .boundary,
    .alt (literal (javaString "Python")) (.alt (literal (javaString "Java"))
      (Regex.sequence [.atomic (plus (.char (Pattern.unit 'C')))])), .boundary, .star .any]) := by
  decide +kernel

/-- What the alternatives match. -/
def Named (word : JavaString) : Prop :=
  word = javaString "Python" ∨ word = javaString "Java" ∨ ∃ k, word = lettersC k

/-- Such a word begins and ends with a word character and is in one line. -/
structure WordLike (word : JavaString) : Prop where
  first : ∃ c rest, word = c :: rest ∧ c < 128 ∧ isWord c = true
  last : ∃ c rest, word.reverse = c :: rest ∧ c < 128 ∧ isWord c = true
  line : OneLine word

theorem oneLine_of_all (h : text.all (· ∉ lineTerminators) = true) : OneLine text :=
  fun c hc => of_decide_eq_true (List.all_eq_true.mp h c hc)

theorem Named.wordLike (h : Named word) : WordLike word := by
  rcases h with rfl | rfl | ⟨k, rfl⟩
  · refine ⟨⟨_, _, rfl, by decide, by decide⟩, ⟨_, _, rfl, by decide, by decide⟩, ?_⟩
    exact oneLine_of_all (by decide)
  · refine ⟨⟨_, _, rfl, by decide, by decide⟩, ⟨_, _, rfl, by decide, by decide⟩, ?_⟩
    exact oneLine_of_all (by decide)
  · refine ⟨⟨_, _, rfl, by decide, by decide⟩,
      ⟨Pattern.unit 'C', List.replicate k (Pattern.unit 'C'), ?_, by decide, by decide⟩, ?_⟩
    · exact List.reverse_replicate
    · intro c hc
      rw [List.eq_of_mem_replicate hc]
      decide

/-- A run of the letter that is not followed by a word character has all of it. -/
theorem head?_ne_of_right (hRules : JavaText rules) {c : UInt16} (hAscii : c < 128)
    (hWord : isWord c = true) (hRight : rules.right p = false) : p.after.head? ≠ some c := by
  intro hHead
  obtain ⟨before, after⟩ := p
  cases after with
  | nil => cases hHead
  | cons d after =>
    cases hHead
    rw [hRules.right c before after hAscii, hWord] at hRight
    cases hRight

theorem reaches_names : Reaches rules (.alt (literal (javaString "Python"))
    (.alt (literal (javaString "Java"))
      (Regex.sequence [.atomic (plus (.char (Pattern.unit 'C')))]))) p q ↔
    ∃ word, Consumes p word q ∧ (word = javaString "Python" ∨ word = javaString "Java" ∨
      ∃ k, word = lettersC k ∧ q.after.head? ≠ some (Pattern.unit 'C')) := by
  have hLetters : Reaches rules (Regex.sequence [.atomic (plus (.char (Pattern.unit 'C')))]) p q ↔
      ∃ k, Consumes p (lettersC k) q ∧ q.after.head? ≠ some (Pattern.unit 'C') := by
    rw [Regex.reaches_sequence_cons]
    simp only [Regex.reaches_sequence_nil, exists_eq_right']
    exact Regex.reaches_possessive
  rw [Regex.reaches_alt, Regex.reaches_alt, Regex.reaches_literal, Regex.reaches_literal, hLetters]
  constructor
  · intro h
    rcases h with h | h | ⟨k, h, hHead⟩
    · exact ⟨_, h, Or.inl rfl⟩
    · exact ⟨_, h, Or.inr (Or.inl rfl)⟩
    · exact ⟨_, h, Or.inr (Or.inr ⟨k, rfl, hHead⟩)⟩
  · rintro ⟨word, h, hWord⟩
    rcases hWord with rfl | rfl | ⟨k, rfl, hHead⟩
    · exact Or.inl h
    · exact Or.inr (Or.inl h)
    · exact Or.inr (Or.inr ⟨k, h, hHead⟩)

/-- The word boundaries are where no word character follows the word or precedes it. -/
theorem boundaries_iff (hRules : JavaText rules) (hWord : WordLike word)
    (before after : JavaString) :
    (rules.left ⟨before, word ++ after⟩ ≠ rules.right ⟨before, word ++ after⟩ ∧
      rules.left ⟨word.reverse ++ before, after⟩ ≠ rules.right ⟨word.reverse ++ before, after⟩) ↔
      rules.left ⟨before, word ++ after⟩ = false ∧
        rules.right ⟨word.reverse ++ before, after⟩ = false := by
  obtain ⟨c, rest, hFirst, hAscii, hLetter⟩ := hWord.first
  have hRight : rules.right ⟨before, word ++ after⟩ = true := by
    rw [hFirst, List.cons_append, hRules.right _ _ _ hAscii, hLetter]
  obtain ⟨d, rest', hLast, hAscii', hLetter'⟩ := hWord.last
  have hLeft : rules.left ⟨word.reverse ++ before, after⟩ = true := by
    rw [hLast, List.cons_append, hRules.left _ _ _ hAscii', hLetter']
  rw [hRight, hLeft]
  simp

theorem oneLine_append {v w : JavaString} : OneLine (v ++ w) ↔ OneLine v ∧ OneLine w :=
  List.forall_mem_append

/-- **The filter.** It keeps a line with one of the first two languages or a word of `C`s. -/
theorem isMatch_iff (hRules : JavaText rules) (text : JavaString) :
    isMatch rules text = true ↔ OneLine text ∧ ∃ word, Named word ∧ Stands rules word text := by
  have hTerminator : ∀ w : JavaString, (∀ c ∈ w, rules.terminator c = false) ↔ OneLine w := by
    intro w
    unfold OneLine
    simp only [hRules.terminator, decide_eq_false_iff_not]
  unfold isMatch
  rw [pattern_eq, Option.any_some, Regex.matchesAll_between]
  simp only [reaches_names, hTerminator]
  constructor
  · rintro ⟨before, p, q, ⟨hText, hp⟩, hStart, ⟨word, ⟨hAfter, hq⟩, hName⟩, hEnd, hLine, hLine'⟩
    have hNamed : Named word := by
      rcases hName with h | h | ⟨k, h, -⟩
      · exact Or.inl h
      · exact Or.inr (Or.inl h)
      · exact Or.inr (Or.inr ⟨k, h⟩)
    obtain ⟨pBefore, pAfter⟩ := p
    obtain ⟨qBefore, after⟩ := q
    dsimp only at hText hp hAfter hq hLine'
    rw [List.append_nil] at hp
    subst hp hAfter hq hText
    obtain ⟨hLeft, hRight⟩ :=
      (boundaries_iff hRules hNamed.wordLike before.reverse after).mp ⟨hStart, hEnd⟩
    refine ⟨?_, word, hNamed, before, after, (List.append_assoc ..).symm, hLeft, ?_⟩
    · exact oneLine_append.mpr ⟨hLine, oneLine_append.mpr ⟨hNamed.wordLike.line, hLine'⟩⟩
    · rw [List.reverse_append]
      exact hRight
  · rintro ⟨hLine, word, hNamed, before, after, hText, hLeft, hRight⟩
    subst hText
    obtain ⟨hLines, hAfter⟩ := oneLine_append.mp hLine
    rw [List.reverse_append] at hRight
    obtain ⟨hStart, hEnd⟩ :=
      (boundaries_iff hRules hNamed.wordLike before.reverse after).mpr ⟨hLeft, hRight⟩
    refine ⟨before, ⟨before.reverse, word ++ after⟩, ⟨word.reverse ++ before.reverse, after⟩,
      ⟨List.append_assoc .., (List.append_nil _).symm⟩, hStart, ⟨word, ⟨rfl, rfl⟩, ?_⟩, hEnd,
      (oneLine_append.mp hLines).1, hAfter⟩
    rcases hNamed with h | h | ⟨k, h⟩
    · exact Or.inl h
    · exact Or.inr (Or.inl h)
    · exact Or.inr (Or.inr ⟨k, h, head?_ne_of_right hRules (by decide) (by decide) hRight⟩)

/-- A name with two plus signs is the letter before them. -/
theorem stands_letter (hRules : JavaText rules) (h : Stands rules (javaString "C++") text) :
    Stands rules (lettersC 0) text := by
  obtain ⟨before, after, hText, hLeft, -⟩ := h
  refine ⟨before, javaString "++" ++ after, ?_, hLeft, ?_⟩
  · rw [hText, List.append_assoc, List.append_assoc]
    rfl
  · exact hRules.right _ _ _ (by decide)

/-- The filter keeps every line that mentions a language. -/
theorem isMatch_of_mentions (hRules : JavaText rules) (hLine : OneLine text)
    (h : Mentions rules text) : isMatch rules text = true := by
  rw [isMatch_iff hRules]
  refine ⟨hLine, ?_⟩
  obtain ⟨name, hName, hStands⟩ := h
  simp only [tokens, List.mem_cons, List.not_mem_nil, or_false] at hName
  rcases hName with rfl | rfl | rfl
  · exact ⟨_, Or.inl rfl, hStands⟩
  · exact ⟨_, Or.inr (Or.inl rfl), hStands⟩
  · exact ⟨_, Or.inr (Or.inr ⟨0, rfl⟩), stands_letter hRules hStands⟩

/-- The filter is right about contents exactly if they are filterable. -/
theorem isMatch_right_iff (hRules : JavaText rules) (text : JavaString) :
    (isMatch rules text = true ↔ Mentions rules text) ↔ Filterable rules text := by
  constructor
  · intro hRight
    refine ⟨?_, ?_⟩
    · intro hLines hMentions
      exact hLines ((isMatch_iff hRules text).mp (hRight.mpr hMentions)).1
    · intro hLine ⟨k, hStands⟩
      exact hRight.mp ((isMatch_iff hRules text).mpr
        ⟨hLine, _, Or.inr (Or.inr ⟨k, rfl⟩), hStands⟩)
  · intro ⟨hLines, hLetters⟩
    constructor
    · intro hMatch
      obtain ⟨hLine, word, hNamed, hStands⟩ := (isMatch_iff hRules text).mp hMatch
      rcases hNamed with rfl | rfl | ⟨k, rfl⟩
      · exact ⟨_, List.mem_cons_self, hStands⟩
      · exact ⟨_, List.mem_cons_of_mem _ List.mem_cons_self, hStands⟩
      · exact hLetters hLine ⟨k, hStands⟩
    · intro hMentions
      exact isMatch_of_mentions hRules (not_not.mp fun h => hLines h hMentions) hMentions

end Filter

/-! ## The calls -/

section Calls

variable (toText : Json → JavaString)

/-- The postings of the five pages of a call. -/
def readPostings (call : Call) : List ApiObject :=
  pages.flatMap fun count => (results (call count)).filterMap fun x =>
    (parsePosting toText x).toOption

theorem postings_eq_filter (isMatch : JavaString → Bool) (call : Call) :
    postings toText isMatch call =
      (readPostings toText call).filter fun apiObject => isMatch apiObject.contents := by
  unfold postings readPostings
  rw [List.filter_flatMap]

/-- **Job filter.** Of the postings that a call reads, it keeps the right ones exactly as far as
their contents are filterable. -/
theorem getList_keeps_iff {rules : TextRules UInt16} (hRules : JavaText rules) (call : Call)
    (list : List ApiObject) {result : List ApiObject}
    (hReturned : (getList toText (isMatch rules) call list).1 = .returned (some result)) :
    ∃ kept, result = list ++ kept ∧ kept.Sublist (readPostings toText call) ∧
      ∀ apiObject ∈ readPostings toText call,
        (apiObject ∈ kept ↔ Mentions rules apiObject.contents) ↔
          Filterable rules apiObject.contents := by
  obtain ⟨-, hResult⟩ := returned_iff.mp hReturned
  rw [postings_eq_filter] at hResult
  refine ⟨_, hResult, List.filter_sublist, ?_⟩
  intro apiObject hRead
  rw [List.mem_filter, and_iff_right hRead]
  exact isMatch_right_iff hRules apiObject.contents

end Calls

/-- A call that returns one job. -/
theorem getList_keeps_oneJob :
    ∃ kept, (getList printString (isMatch asciiRules) oneJob []).1 = .returned (some kept) ∧
      ∀ apiObject ∈ readPostings printString oneJob,
        (apiObject ∈ kept ↔ Mentions asciiRules apiObject.contents) ↔
          Filterable asciiRules apiObject.contents := by
  have hReturned : ∃ kept,
      (getList printString (isMatch asciiRules) oneJob []).1 = .returned (some kept) :=
    ⟨[⟨javaString "Java", [], [], [], [], [], [], [], [], [], [], [], []⟩], by decide +kernel⟩
  obtain ⟨result, hResult⟩ := hReturned
  obtain ⟨kept, hKept, -, hRight⟩ :=
    getList_keeps_iff printString javaText_asciiRules oneJob [] hResult
  cases hKept
  exact ⟨_, hResult, hRight⟩

/-- The job with other contents, alone on the first page. -/
def jobWith (contents : JavaString) : Call := fun count =>
  .response 200 (some [(javaString "results", .array (if count = 1 then
    match javaJob with
    | .object (_ :: fields) => [.object ((javaString "contents", .string contents) :: fields)]
    | _ => []
  else []))])

/-- A job is not kept because of a line break after the language. -/
theorem lineBreak_not_kept :
    (getList printString (isMatch asciiRules) (jobWith (javaString "Java\n")) []).1 =
        .returned (some []) ∧
      ∃ apiObject ∈ readPostings printString (jobWith (javaString "Java\n")),
        Mentions asciiRules apiObject.contents := by
  refine ⟨by decide +kernel, ⟨javaString "Java\n", [], [], [], [], [], [], [], [], [], [], [], []⟩,
    by decide +kernel, javaString "Java", by decide, [], javaString "\n", ?_⟩
  decide +kernel

end Windborne.TechEntrance
