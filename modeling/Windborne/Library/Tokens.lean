import Mathlib.Data.List.TakeWhile

/-!
# Cutting a string into its words

`strtokR` walks over a string in a buffer, ends the words it finds in place and keeps in a context
where the rest begins. The words are those of the string as it was: a call writes between the word
it returns and the rest, so words that have been returned stay, and so does what lies behind the
string.
-/

namespace Windborne.Library

variable {α : Type*}

/-! ## Strings in a buffer -/

/-- The buffer has the text at `p`, with a terminator behind it. -/
structure StringAt (nul : α) (buf : List α) (p : Nat) (text : List α) : Prop where
  prefix_drop : text ++ [nul] <+: buf.drop p
  not_mem : nul ∉ text

namespace StringAt

variable {nul x : α} {buf buf' lead word rest text : List α} {p e : Nat}

theorem skip (h : StringAt nul buf p (lead ++ rest)) :
    StringAt nul buf (p + lead.length) rest := by
  obtain ⟨after, hAfter⟩ := h.prefix_drop
  constructor
  · refine ⟨after, ?_⟩
    rw [← List.drop_drop, ← hAfter, List.append_assoc lead, List.append_assoc lead,
      List.drop_left]
  · intro hMem
    exact h.not_mem (List.mem_append_right lead hMem)

/-- A string stays when nothing changes from some place before it on. -/
theorem of_drop (h : StringAt nul buf p text) (hp : e ≤ p) (hSame : buf'.drop e = buf.drop e) :
    StringAt nul buf' p text := by
  obtain ⟨k, rfl⟩ := Nat.exists_eq_add_of_le hp
  have hDrop : buf'.drop (e + k) = buf.drop (e + k) := by
    rw [← List.drop_drop, ← List.drop_drop, hSame]
  exact ⟨hDrop ▸ h.prefix_drop, h.not_mem⟩

/-- A string stays when nothing changes up to some place behind it. -/
theorem of_take (h : StringAt nul buf p text) (he : p + text.length < e)
    (hSame : buf'.take e = buf.take e) : StringAt nul buf' p text := by
  have hDrop : (buf'.drop p).take (e - p) = (buf.drop p).take (e - p) := by
    rw [← List.drop_take, ← List.drop_take, hSame]
  have hPrefix : text ++ [nul] <+: (buf.drop p).take (e - p) := by
    apply List.prefix_take_iff.mpr
    refine ⟨h.prefix_drop, ?_⟩
    rw [List.length_append, List.length_singleton]
    omega
  rw [← hDrop] at hPrefix
  exact ⟨hPrefix.trans (List.take_prefix _ _), h.not_mem⟩

/-- A terminator in the place of an element ends the string there. -/
theorem cut (h : StringAt nul buf p (word ++ x :: rest)) :
    StringAt nul (buf.set (p + word.length) nul) p word := by
  obtain ⟨after, hAfter⟩ := h.prefix_drop
  constructor
  · refine ⟨rest ++ [nul] ++ after, ?_⟩
    rw [List.drop_set, if_neg (by omega), Nat.add_sub_cancel_left, ← hAfter]
    simp
  · intro hMem
    exact h.not_mem (List.mem_append_left _ hMem)

end StringAt

/-- The context has this text before it, which ends at `e`. -/
def Ahead (nul : α) (buf : List α) (context : Option Nat) (text : List α) (e : Nat) : Prop :=
  match context with
  | none => text = []
  | some p => StringAt nul buf p text ∧ p + text.length = e

/-- The word lies behind the context. -/
def Passed (context : Option Nat) (head : Nat) (word : List α) : Prop :=
  ∀ p ∈ context, head + word.length < p

/-- What lies before the context stays when nothing changes from the end of a word on that the
context has passed. -/
theorem Ahead.of_drop {nul : α} {buf buf' text word : List α} {context : Option Nat} {e head : Nat}
    (h : Ahead nul buf context text e) (hPassed : Passed context head word)
    (hSame : buf'.drop (head + word.length) = buf.drop (head + word.length)) :
    Ahead nul buf' context text e := by
  cases context with
  | none => exact h
  | some p => exact ⟨h.1.of_drop (hPassed p rfl).le hSame, h.2⟩

/-- A run of elements that satisfy `P` ends at the first that does not. -/
theorem takeWhile_append_eq {P : α → Bool} {run tail : List α} (hRun : ∀ y ∈ run, P y = true)
    (hTail : ∀ x ∈ tail.head?, P x = false) : (run ++ tail).takeWhile P = run := by
  rw [List.takeWhile_append_of_pos hRun]
  cases tail with
  | nil => rw [List.takeWhile_nil, List.append_nil]
  | cons x rest =>
    have hx : P x = false := hTail x rfl
    rw [List.takeWhile_cons_of_neg (by simp [hx]), List.append_nil]

variable [DecidableEq α]

/-- The elements from `p` up to the terminator. -/
def cstring (nul : α) (buf : List α) (p : Nat) : List α := (buf.drop p).takeWhile (· ≠ nul)

theorem StringAt.cstring_eq {nul : α} {buf text : List α} {p : Nat}
    (h : StringAt nul buf p text) : cstring nul buf p = text := by
  obtain ⟨after, hAfter⟩ := h.prefix_drop
  have hText : ∀ y ∈ text, decide (y ≠ nul) = true := by
    intro y hy
    apply decide_eq_true
    rintro rfl
    exact h.not_mem hy
  unfold cstring
  rw [← hAfter, List.append_assoc, List.takeWhile_append_of_pos hText, List.singleton_append,
    List.takeWhile_cons_of_neg (by simp), List.append_nil]

/-! ## Words -/

/-- The runs of elements that are no separators. -/
def tokens (seps text : List α) : List (List α) :=
  (text.splitOnP (· ∈ seps)).filter (· ≠ [])

section Tokens

variable {seps lead word rest text : List α} {x : α}

theorem ne_nil_of_mem_tokens (h : word ∈ tokens seps text) : word ≠ [] :=
  of_decide_eq_true (List.mem_filter.mp h).2

theorem tokens_cons_of_mem (hx : x ∈ seps) : tokens seps (x :: rest) = tokens seps rest := by
  unfold tokens
  rw [List.splitOnP_cons_eq_if_modifyHead, if_pos (decide_eq_true hx)]
  exact List.filter_cons_of_neg (by simp)

theorem tokens_append_of_seps (hLead : ∀ y ∈ lead, y ∈ seps) :
    tokens seps (lead ++ rest) = tokens seps rest := by
  induction lead with
  | nil => rfl
  | cons y lead ih =>
    rw [List.cons_append, tokens_cons_of_mem (hLead y List.mem_cons_self)]
    exact ih fun z hz => hLead z (List.mem_cons_of_mem y hz)

theorem tokens_of_seps (hLead : ∀ y ∈ lead, y ∈ seps) : tokens seps lead = [] := by
  rw [← List.append_nil lead, tokens_append_of_seps hLead]
  rfl

theorem tokens_word (hNonempty : word ≠ []) (hWord : ∀ y ∈ word, y ∉ seps) :
    tokens seps word = [word] := by
  have hFree : ∀ y ∈ word, decide (y ∈ seps) = false := fun y hy => decide_eq_false (hWord y hy)
  unfold tokens
  rw [List.splitOnP_eq_singleton hFree]
  exact List.filter_cons_of_pos (decide_eq_true hNonempty)

theorem tokens_word_append (hNonempty : word ≠ []) (hWord : ∀ y ∈ word, y ∉ seps)
    (hx : x ∈ seps) : tokens seps (word ++ x :: rest) = word :: tokens seps rest := by
  have hFree : ∀ y ∈ word, decide (y ∈ seps) = false := fun y hy => decide_eq_false (hWord y hy)
  unfold tokens
  rw [List.splitOnP_append_cons_of_forall_mem hFree x (decide_eq_true hx)]
  exact List.filter_cons_of_pos (decide_eq_true hNonempty)

end Tokens

/-! ## The tokenizer -/

/-- `strtok_r`: the word that is found, the context and the buffer. -/
def strtokR (nul : α) (buf : List α) (str : Option Nat) (seps : List α) (context : Option Nat) :
    Option Nat × Option Nat × List α :=
  match str.or context with
  | none => (none, none, buf)
  | some start =>
    let head := start + ((cstring nul buf start).takeWhile (· ∈ seps)).length
    let word := (cstring nul buf head).takeWhile (· ∉ seps)
    let tail := head + word.length
    if word = [] then (none, none, buf)
    -- the last word of the string, which nothing can follow
    else if cstring nul buf tail = [] then (some head, none, buf)
    else (some head, some (tail + 1), buf.set tail nul)

/-- The first word of a text that ends at `e` is taken off. -/
structure Taken (nul : α) (seps buf : List α) (context : Option Nat) (text : List α) (e : Nat)
    (head : Nat) (word rest : List α) (context' : Option Nat) (buf' : List α) : Prop where
  tokens_eq : tokens seps text = word :: tokens seps rest
  length_lt : rest.length < text.length
  word_at : StringAt nul buf' head word
  word_length_le : word.length ≤ text.length
  passed : Passed context' head word
  ahead : Ahead nul buf' context' rest e
  beyond : buf'.drop e = buf.drop e
  keeps (a : Nat) (w : List α) (h : StringAt nul buf a w) (hPassed : Passed context a w) :
    StringAt nul buf' a w ∧ Passed context' a w

section Strtok

variable {nul : α} {seps buf text : List α} {str context : Option Nat} {p e : Nat}

/-- Separators alone, or a word between separators. -/
inductive Parted (seps : List α) : List α → Prop
  | blank {lead : List α} (hLead : ∀ y ∈ lead, y ∈ seps) : Parted seps lead
  | word {lead word tail : List α} (hLead : ∀ y ∈ lead, y ∈ seps) (hNonempty : word ≠ [])
      (hWord : ∀ y ∈ word, y ∉ seps) (hTail : ∀ x ∈ tail.head?, x ∈ seps) :
      Parted seps (lead ++ (word ++ tail))

theorem parted (seps text : List α) : Parted seps text := by
  have hLead : ∀ y ∈ text.takeWhile (· ∈ seps), y ∈ seps := by
    intro y hy
    have hSep := List.mem_takeWhile_imp hy
    exact of_decide_eq_true hSep
  rw [← List.takeWhile_append_dropWhile (p := (· ∈ seps)) (l := text)]
  cases hRest : text.dropWhile (· ∈ seps) with
  | nil =>
    rw [List.append_nil]
    exact .blank hLead
  | cons x rest =>
    have hFirst : x ∉ seps := by
      have hHead := List.head?_dropWhile_not (· ∈ seps) text
      rw [hRest] at hHead
      exact of_decide_eq_false hHead
    have hTail : ∀ y ∈ ((x :: rest).dropWhile (· ∉ seps)).head?, y ∈ seps := by
      intro y hy
      have hHead := List.head?_dropWhile_not (· ∉ seps) (x :: rest)
      rw [Option.mem_def.mp hy] at hHead
      simpa using hHead
    rw [← List.takeWhile_append_dropWhile (p := (· ∉ seps)) (l := x :: rest)]
    apply Parted.word hLead _ _ hTail
    · have hTrue : decide (x ∉ seps) = true := decide_eq_true hFirst
      rw [List.takeWhile_cons_of_pos (p := fun y => decide (y ∉ seps)) hTrue]
      exact List.cons_ne_nil _ _
    · intro y hy
      have hOther := List.mem_takeWhile_imp hy
      exact of_decide_eq_true hOther

theorem tokens_parted {lead word : List α} (hLead : ∀ y ∈ lead, y ∈ seps) (hNonempty : word ≠ [])
    (hWord : ∀ y ∈ word, y ∉ seps) {tail : List α} (hTail : ∀ x ∈ tail.head?, x ∈ seps) :
    tokens seps (lead ++ (word ++ tail)) = word :: tokens seps tail.tail := by
  rw [tokens_append_of_seps hLead]
  cases tail with
  | nil =>
    rw [List.append_nil]
    exact tokens_word hNonempty hWord
  | cons x rest => exact tokens_word_append hNonempty hWord (hTail x rfl)

/-- The last word of a string is not cut off. -/
theorem taken_last {lead word : List α} {start : Nat}
    (hText : StringAt nul buf start (lead ++ (word ++ []))) (hNonempty : word ≠ [])
    (hTokens : tokens seps (lead ++ (word ++ [])) = word :: tokens seps []) :
    Taken nul seps buf (some start) (lead ++ (word ++ [])) (start + (lead ++ (word ++ [])).length)
      (start + lead.length) word [] none buf where
  tokens_eq := hTokens
  length_lt := by
    have hPos := List.length_pos_iff.mpr hNonempty
    simp only [List.length_append, List.length_nil]
    omega
  word_at := by
    have hWord := hText.skip
    rwa [List.append_nil] at hWord
  word_length_le := by
    simp only [List.length_append, List.length_nil]
    omega
  passed := by
    rintro p ⟨⟩
  ahead := rfl
  beyond := rfl
  keeps a w h _ := by
    refine ⟨h, ?_⟩
    rintro p ⟨⟩

/-- Another word is cut off at the separator behind it. -/
theorem taken_cut {lead word rest : List α} {x : α} {start : Nat}
    (hText : StringAt nul buf start (lead ++ (word ++ x :: rest)))
    (hTokens : tokens seps (lead ++ (word ++ x :: rest)) = word :: tokens seps rest) :
    Taken nul seps buf (some start) (lead ++ (word ++ x :: rest))
      (start + (lead ++ (word ++ x :: rest)).length) (start + lead.length) word rest
      (some (start + lead.length + word.length + 1))
      (buf.set (start + lead.length + word.length) nul) where
  tokens_eq := hTokens
  length_lt := by
    simp only [List.length_append, List.length_cons]
    omega
  word_at := hText.skip.cut
  word_length_le := by
    simp only [List.length_append, List.length_cons]
    omega
  passed := by
    rintro p ⟨⟩
    omega
  ahead := by
    have hRest : StringAt nul buf (start + lead.length + word.length + 1) rest := by
      have hBehind : StringAt nul buf (start + lead.length + word.length) ([x] ++ rest) :=
        hText.skip.skip
      exact hBehind.skip
    refine ⟨hRest.of_drop le_rfl (List.drop_set_of_lt (by omega)), ?_⟩
    simp only [List.length_append, List.length_cons]
    omega
  beyond := by
    apply List.drop_set_of_lt
    simp only [List.length_append, List.length_cons]
    omega
  keeps a w h hPassed := by
    have hBefore : a + w.length < start := hPassed start rfl
    refine ⟨h.of_take hBefore (List.take_set_of_le (by omega)), ?_⟩
    rintro p ⟨⟩
    omega

/-- The call on a text: it finds nothing, or its first word. -/
theorem strtokR_spec (seps : List α) (h : Ahead nul buf (str.or context) text e) :
    tokens seps text = [] ∧ strtokR nul buf str seps context = (none, none, buf) ∨
      ∃ head word rest context' buf', strtokR nul buf str seps context =
        (some head, context', buf') ∧
          Taken nul seps buf (str.or context) text e head word rest context' buf' := by
  unfold strtokR
  cases hContext : str.or context with
  | none =>
    rw [hContext] at h
    left
    exact ⟨h ▸ rfl, rfl⟩
  | some start =>
    rw [hContext] at h
    obtain ⟨hText, rfl⟩ := h
    simp only [hText.cstring_eq]
    cases parted seps text with
    | blank hLead =>
      have hAll : text.takeWhile (· ∈ seps) = text :=
        List.takeWhile_eq_self_iff.mpr fun y hy => decide_eq_true (hLead y hy)
      have hEnd : StringAt nul buf (start + text.length) [] := by
        apply StringAt.skip
        rwa [List.append_nil]
      left
      refine ⟨tokens_of_seps hLead, ?_⟩
      rw [hAll, hEnd.cstring_eq]
      exact if_pos rfl
    | @word lead word tail hLead hNonempty hWord hTail =>
      have hWordAt := hText.skip
      have hFirst : ∀ y ∈ (word ++ tail).head?, decide (y ∈ seps) = false := by
        intro y hy
        obtain ⟨z, run, rfl⟩ := List.exists_cons_of_ne_nil hNonempty
        cases hy
        exact decide_eq_false (hWord y List.mem_cons_self)
      have hRun : ∀ y ∈ word, decide (y ∉ seps) = true := fun y hy => decide_eq_true (hWord y hy)
      have hStop : ∀ y ∈ tail.head?, decide (y ∉ seps) = false := by
        intro y hy
        exact decide_eq_false (not_not_intro (hTail y hy))
      have hTokens := tokens_parted hLead hNonempty hWord hTail
      right
      simp only [takeWhile_append_eq (fun y hy => decide_eq_true (hLead y hy)) hFirst,
        hWordAt.cstring_eq, takeWhile_append_eq hRun hStop, hWordAt.skip.cstring_eq,
        if_neg hNonempty]
      cases tail with
      | nil => exact ⟨_, _, _, _, _, rfl, taken_last hText hNonempty hTokens⟩
      | cons x rest => exact ⟨_, _, _, _, _, rfl, taken_cut hText hTokens⟩

end Strtok

end Windborne.Library
