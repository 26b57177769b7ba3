import Mathlib.Data.List.Basic

/-!
# The copy loops of `cp` and `cat`

`copy` and `docat` read into a buffer of 1024 bytes and write from it, and both calls may transfer
less than they are asked to. A schedule says for every call how much it transfers or that it
fails; the bounds are part of its type. The buffer keeps what it held before, past the bytes that a
read has filled.
-/

namespace Windborne.OS161.Copy

abbrev Byte := UInt8

/-! ## Calls -/

/-- What a `read` of 1024 bytes may return: 0 only at the end of the source. -/
abbrev ReadCount (rest : List Byte) :=
  { len : Nat // len ≤ 1024 ∧ len ≤ rest.length ∧ (len = 0 → rest = []) }

/-- What a `write` may return. -/
abbrev WriteCount (offered : Nat) := { wr : Nat // 1 ≤ wr ∧ wr ≤ offered }

/-- The results of the calls after so many others of the kind; `none` is a negative one. -/
structure Schedule where
  read : Nat → (rest : List Byte) → Option (ReadCount rest)
  write : Nat → (offered : Nat) → Option (WriteCount offered)

/-- `char buf[1024]` -/
structure Buffer where
  bytes : List Byte
  size : bytes.length = 1024

namespace Buffer

/-- The buffer after a `read`. -/
def fill (buf : Buffer) (rest : List Byte) (len : ReadCount rest) : Buffer where
  bytes := rest.take len ++ buf.bytes.drop len
  size := by
    have hLen := len.2
    have hSize := buf.size
    rw [List.length_append, List.length_take, List.length_drop]
    omega

/-- The bytes at `buf+wrtot` that are offered to a `write`. -/
def offered (buf : Buffer) (len wrtot : Nat) : List Byte :=
  (buf.bytes.drop wrtot).take (len - wrtot)

end Buffer

/-- The rest of the source, what has been written, and how many calls have succeeded. -/
structure Io where
  rest : List Byte
  written : List Byte
  reads : Nat
  writes : Nat

/-- `err` with an exit code and its text. -/
structure Err where
  code : Nat
  text : String
  deriving DecidableEq

/-- An exit or a normal end, and what has been transferred; `none` without enough fuel. -/
abbrev Ends := Option (Except Err Unit × Io)

/-! ## Loops -/

/-- `while (wrtot < len)` -/
def writeLoop (S : Schedule) (to_ : Err) (buf : Buffer) (len : Nat) :
    Nat → Io → (wrtot : Nat) → Ends
  | 0, _, _ => none
  | fuel + 1, io, wrtot =>
    if wrtot < len then
      match S.write io.writes (len - wrtot) with
      | none => some (.error to_, io)
      | some wr =>
        let bytes := (buf.offered len wrtot).take wr
        writeLoop S to_ buf len fuel
          { io with written := io.written ++ bytes, writes := io.writes + 1 } (wrtot + wr)
    else some (.ok (), io)

/-- `while ((len = read(fd, buf, sizeof(buf))) > 0)` and the check of `len` after it. -/
def readLoop (S : Schedule) (from_ to_ : Err) : Nat → Io → Buffer → Ends
  | 0, _, _ => none
  | fuel + 1, io, buf =>
    match S.read io.reads io.rest with
    | none => some (.error from_, io)
    | some len =>
      let buf := buf.fill io.rest len
      let io := { io with rest := io.rest.drop len, reads := io.reads + 1 }
      if 0 < len.1 then
        match writeLoop S to_ buf len fuel io 0 with
        | none => none
        | some (.error e, io) => some (.error e, io)
        | some (.ok (), io) => readLoop S from_ to_ fuel io buf
      else some (.ok (), io)

/-- `docat` of `cat.c`; `printed` is what standard output has got before. -/
def docat (S : Schedule) (fuel : Nat) (name : String) (source printed : List Byte)
    (buf : Buffer) : Ends :=
  readLoop S ⟨1, name⟩ ⟨1, "stdout"⟩ fuel ⟨source, printed, 0, 0⟩ buf

/-- Which calls of `open` and `close` succeed. -/
structure FileCalls where
  openFrom : Bool
  openTo : Bool
  closeFrom : Bool
  closeTo : Bool

/-- `copy` of `cp.c`; `old` is in the target before it is truncated. -/
def copy (S : Schedule) (calls : FileCalls) (fuel : Nat) (from_ to_ : String)
    (source old : List Byte) (buf : Buffer) : Ends :=
  if ¬calls.openFrom then some (.error ⟨1, from_⟩, ⟨source, old, 0, 0⟩)
  else if ¬calls.openTo then some (.error ⟨1, to_⟩, ⟨source, old, 0, 0⟩)
  else
    match readLoop S ⟨1, from_⟩ ⟨1, to_⟩ fuel ⟨source, [], 0, 0⟩ buf with
    | some (.ok (), io) =>
      if ¬calls.closeFrom then some (.error ⟨1, from_ ++ ": close"⟩, io)
      else if ¬calls.closeTo then some (.error ⟨1, to_ ++ ": close"⟩, io)
      else some (.ok (), io)
    | other => other

/-! ## What the loops write -/

/-- The call after those that have succeeded has failed. -/
def CallFailed (S : Schedule) (from_ to_ : Err) (e : Err) (io : Io) : Prop :=
  e = from_ ∧ S.read io.reads io.rest = none ∨
    e = to_ ∧ ∃ offered, 0 < offered ∧ S.write io.writes offered = none

/-- **Faithful copying.** The loops end, with the source after what was there before, or with a
prefix of it when a call has failed. -/
def Copies (S : Schedule) (from_ to_ : Err) (source before : List Byte) (ends : Ends) : Prop :=
  ∃ result io, ends = some (result, io) ∧
    (result = .ok () ∧ io.written = before ++ source ∨
      ∃ e, result = .error e ∧ CallFailed S from_ to_ e io ∧
        ∃ done, done <+: source ∧ io.written = before ++ done)

section Loops

/-- What is offered is written first, and then the rest is offered. -/
theorem offered_split (buf : Buffer) (len wrtot wr : Nat) :
    buf.offered len wrtot = (buf.offered len wrtot).take wr ++ buf.offered len (wrtot + wr) := by
  have hRest : buf.offered len (wrtot + wr) = (buf.offered len wrtot).drop wr := by
    unfold Buffer.offered
    rw [List.drop_take, List.drop_drop, Nat.sub_sub]
  rw [hRest, List.take_append_drop]

theorem offered_self (buf : Buffer) (len : Nat) : buf.offered len len = [] := by
  unfold Buffer.offered
  rw [Nat.sub_self, List.take_zero]

/-- The whole of a read is offered, and nothing of what the buffer held before. -/
theorem offered_fill (buf : Buffer) (rest : List Byte) (len : ReadCount rest) :
    (buf.fill rest len).offered len 0 = rest.take len := by
  have hLength : (rest.take len).length = len := by
    rw [List.length_take, Nat.min_eq_left len.2.2.1]
  unfold Buffer.offered Buffer.fill
  dsimp only
  rw [List.drop_zero, Nat.sub_zero, List.take_append_of_le_length (Nat.le_of_eq hLength.symm),
    List.take_of_length_le (Nat.le_of_eq hLength)]

/-- **Inner loop.** With fuel for every byte it writes what is left to offer, or a part of it. -/
theorem writeLoop_spec (S : Schedule) (to_ : Err) (buf : Buffer) {len : Nat} (fuel : Nat) :
    ∀ (io : Io) (wrtot : Nat), wrtot ≤ len → len - wrtot < fuel →
      ∃ result io', writeLoop S to_ buf len fuel io wrtot = some (result, io') ∧
        io'.rest = io.rest ∧
        (result = .ok () ∧ io'.written = io.written ++ buf.offered len wrtot ∨
          result = .error to_ ∧ (∃ offered, 0 < offered ∧ S.write io'.writes offered = none) ∧
            ∃ done, done <+: buf.offered len wrtot ∧ io'.written = io.written ++ done) := by
  induction fuel with
  | zero => exact fun _ _ _ hFuel => absurd hFuel (Nat.not_lt_zero _)
  | succ fuel ih =>
    intro io wrtot hLe hFuel
    unfold writeLoop
    by_cases hMore : wrtot < len
    · rw [if_pos hMore]
      cases hWrite : S.write io.writes (len - wrtot) with
      | none =>
        exact ⟨_, _, rfl, rfl, Or.inr ⟨rfl, ⟨_, Nat.sub_pos_of_lt hMore, hWrite⟩, [],
          List.nil_prefix, (List.append_nil _).symm⟩⟩
      | some wr =>
        have hBounds := wr.2
        have hSplit := offered_split buf len wrtot wr
        obtain ⟨result, io', hRun, hRest, hCases⟩ := ih
          { io with
            written := io.written ++ (buf.offered len wrtot).take wr, writes := io.writes + 1 }
          (wrtot + wr) (by omega) (by omega)
        refine ⟨result, io', hRun, hRest, ?_⟩
        rcases hCases with ⟨hOk, hWritten⟩ | ⟨hError, hFailed, done, hDone, hWritten⟩
        · refine Or.inl ⟨hOk, ?_⟩
          rw [hWritten, List.append_assoc, ← hSplit]
        · refine Or.inr ⟨hError, hFailed, (buf.offered len wrtot).take wr ++ done, ?_, ?_⟩
          · have hPrefix : (buf.offered len wrtot).take wr ++ done <+:
                (buf.offered len wrtot).take wr ++ buf.offered len (wrtot + wr) :=
              (List.prefix_append_right_inj _).mpr hDone
            rwa [← hSplit] at hPrefix
          · rw [hWritten, List.append_assoc]
    · rw [if_neg hMore]
      have hEnd : wrtot = len := by omega
      refine ⟨_, _, rfl, rfl, Or.inl ⟨rfl, ?_⟩⟩
      rw [hEnd, offered_self, List.append_nil]

/-- **Outer loop.** -/
theorem readLoop_copies (S : Schedule) (from_ to_ : Err) (fuel : Nat) :
    ∀ (io : Io) (buf : Buffer), io.rest.length + 1 < fuel →
      Copies S from_ to_ io.rest io.written (readLoop S from_ to_ fuel io buf) := by
  induction fuel with
  | zero => exact fun _ _ hFuel => absurd hFuel (Nat.not_lt_zero _)
  | succ fuel ih =>
    intro io buf hFuel
    unfold readLoop
    cases hRead : S.read io.reads io.rest with
    | none =>
      exact ⟨_, _, rfl, Or.inr ⟨from_, rfl, Or.inl ⟨rfl, hRead⟩, [], List.nil_prefix,
        (List.append_nil _).symm⟩⟩
    | some len =>
      obtain ⟨hSize, hLength, hEnd⟩ := len.2
      dsimp only
      by_cases hMore : 0 < len.1
      · rw [if_pos hMore]
        obtain ⟨result, io', hRun, hRest, hCases⟩ := writeLoop_spec S to_ (buf.fill io.rest len)
          fuel { io with rest := io.rest.drop len, reads := io.reads + 1 } 0 (Nat.zero_le len)
          (by omega)
        rw [hRun]
        rw [offered_fill] at hCases
        have hSource : io.rest.take len ++ io'.rest = io.rest := by
          rw [hRest, List.take_append_drop]
        rcases hCases with ⟨rfl, hWritten⟩ | ⟨rfl, hFailed, done, hDone, hWritten⟩
        · have hShort : io'.rest.length + 1 < fuel := by
            rw [hRest, List.length_drop]
            omega
          obtain ⟨result, io'', hLoop, hCases⟩ := ih io' (buf.fill io.rest len) hShort
          refine ⟨result, io'', hLoop, ?_⟩
          rcases hCases with ⟨hOk, hAll⟩ | ⟨e, hError, hFailed, done, hDone, hPart⟩
          · refine Or.inl ⟨hOk, ?_⟩
            rw [hAll, hWritten, List.append_assoc, hSource]
          · refine Or.inr ⟨e, hError, hFailed, io.rest.take len ++ done, ?_, ?_⟩
            · have hPrefix : io.rest.take len ++ done <+: io.rest.take len ++ io'.rest :=
                (List.prefix_append_right_inj _).mpr hDone
              rwa [hSource] at hPrefix
            · rw [hPart, hWritten, List.append_assoc]
        · refine ⟨_, _, rfl, Or.inr ⟨to_, rfl, Or.inr ⟨rfl, hFailed⟩, done, ?_, hWritten⟩⟩
          exact hDone.trans (List.take_prefix _ _)
      · rw [if_neg hMore]
        have hNil : io.rest = [] := hEnd (by omega)
        refine ⟨_, _, rfl, Or.inl ⟨rfl, ?_⟩⟩
        show io.written = io.written ++ io.rest
        rw [hNil, List.append_nil]

end Loops

/-- `copy` does not touch a target that it cannot open, and otherwise copies; a failed `close`
changes nothing. -/
def CopyEnds (S : Schedule) (calls : FileCalls) (from_ to_ : String) (source old : List Byte)
    (ends : Ends) : Prop :=
  ∃ result io, ends = some (result, io) ∧
    if calls.openFrom ∧ calls.openTo then
      io.written = source ∧ (result = .ok () ↔ calls.closeFrom ∧ calls.closeTo) ∨
        (∃ e, result = .error e ∧ CallFailed S ⟨1, from_⟩ ⟨1, to_⟩ e io) ∧ io.written <+: source
    else io.written = old ∧ ∃ e, result = .error e

/-- **Faithful copying.** `docat` and `copy` end, whatever the calls transfer, and have written the
source, or a prefix of it when a call has failed. -/
theorem copies_source (S : Schedule) (calls : FileCalls) (from_ to_ name : String)
    (source old printed : List Byte) (buf : Buffer) (extra : Nat) :
    Copies S ⟨1, name⟩ ⟨1, "stdout"⟩ source printed
      (docat S (source.length + 2 + extra) name source printed buf) ∧
    CopyEnds S calls from_ to_ source old
      (copy S calls (source.length + 2 + extra) from_ to_ source old buf) := by
  have hFuel : source.length + 1 < source.length + 2 + extra := by omega
  refine ⟨readLoop_copies S _ _ _ ⟨source, printed, 0, 0⟩ buf hFuel, ?_⟩
  obtain ⟨result, io, hRun, hCases⟩ :=
    readLoop_copies S ⟨1, from_⟩ ⟨1, to_⟩ _ ⟨source, [], 0, 0⟩ buf hFuel
  unfold copy CopyEnds
  rw [hRun]
  obtain ⟨openFrom, openTo, closeFrom, closeTo⟩ := calls
  cases openFrom with
  | false => exact ⟨_, _, rfl, by simp⟩
  | true =>
    cases openTo with
    | false => exact ⟨_, _, rfl, by simp⟩
    | true =>
      rcases hCases with ⟨rfl, hWritten⟩ | ⟨e, rfl, hFailed, done, hDone, hWritten⟩
      · rw [List.nil_append] at hWritten
        cases closeFrom with
        | false => exact ⟨_, io, rfl, by simp [hWritten]⟩
        | true =>
          cases closeTo with
          | false => exact ⟨_, io, rfl, by simp [hWritten]⟩
          | true => exact ⟨_, io, rfl, by simp [hWritten]⟩
      · rw [List.nil_append] at hWritten
        refine ⟨_, io, rfl, ?_⟩
        rw [if_pos ⟨rfl, rfl⟩]
        refine Or.inr ⟨⟨e, rfl, hFailed⟩, ?_⟩
        rw [hWritten]
        exact hDone

/-- Two bytes for a read and one for a write, until the third write fails. -/
def trickle : Schedule where
  read _ rest := some ⟨min 2 rest.length, by omega, by omega, fun h =>
    List.eq_nil_of_length_eq_zero (by omega)⟩
  write k offered := if h : 1 ≤ offered ∧ k < 2 then some ⟨1, by omega, h.1⟩ else none

example (buf : Buffer) :
    (docat trickle 9 "f" [1, 2, 3, 4] [] buf).map (·.2.written) = some [1, 2] := rfl

end Windborne.OS161.Copy
