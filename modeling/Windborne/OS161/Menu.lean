import Mathlib.Data.List.Forall2
import Windborne.Library.Tokens

/-!
# The command menu

`menu_execute` cuts a line at its semicolons and `cmd_dispatch` every piece at its blanks, both
with `strtok_r` and in the same buffer. The outer context is a local variable of `menu_execute`,
so the inner calls cannot disturb it, and they write before the terminator of their own piece
only; so it does not matter how far `cmd_dispatch` gets with a piece.

Characters stand for the bytes with their codes. The log has what is printed and which functions
of the table are called, with the words that `args` points to.
-/

namespace Windborne.OS161.Menu

open Library

abbrev Text := List Char

/-- The terminator of strings. -/
def nul : Char := Char.ofNat 0

def EINVAL : Int := 1

def E2BIG : Int := 25

abbrev MAXMENUARGS : Nat := 16

/-! ## Commands -/

/-- The functions in the command table. -/
inductive CmdFunc where
  | cmdMainmenu
  | cmdOpsmenu
  | cmdTestmenu
  | cmdShell
  | cmdProg
  | cmdMount
  | cmdUnmount
  | cmdBootfs
  | printfile
  | cmdChdir
  | cmdPwd
  | cmdSync
  | cmdPanic
  | cmdQuit
  | catmousesem
  | catmouselock
  | createvehicles
  | cmdKheapstats
  | arraytest
  | bitmaptest
  | queuetest
  | malloctest
  | mallocstress
  | nettest
  | threadtest
  | threadtest2
  | threadtest3
  | semtest
  | locktest
  | cvtest
  | fstest
  | readstress
  | writestress
  | writestress2
  | createstress
  deriving DecidableEq

/-- The options of the kernel configuration. -/
structure Options where
  optSynchprobs : Bool
  optNet : Bool

def operations : List (String × CmdFunc) :=
  [("s", .cmdShell), ("p", .cmdProg), ("mount", .cmdMount), ("unmount", .cmdUnmount),
    ("bootfs", .cmdBootfs), ("pf", .printfile), ("cd", .cmdChdir), ("pwd", .cmdPwd),
    ("sync", .cmdSync), ("panic", .cmdPanic), ("q", .cmdQuit), ("exit", .cmdQuit),
    ("halt", .cmdQuit)]

def synchProblems : List (String × CmdFunc) :=
  [("1a", .catmousesem), ("1b", .catmouselock), ("1c", .createvehicles)]

/-- The entries before the one with a `NULL` name. -/
def cmdtable (opt : Options) : List (String × CmdFunc) :=
  List.flatten [
    [("?", .cmdMainmenu), ("h", .cmdMainmenu), ("help", .cmdMainmenu), ("?o", .cmdOpsmenu),
      ("?t", .cmdTestmenu)],
    operations,
    if opt.optSynchprobs then synchProblems else [],
    [("kh", .cmdKheapstats)],
    [("at", .arraytest), ("bt", .bitmaptest), ("qt", .queuetest), ("km1", .malloctest),
      ("km2", .mallocstress)],
    if opt.optNet then [("net", .nettest)] else [],
    [("tt1", .threadtest), ("tt2", .threadtest2), ("tt3", .threadtest3), ("sy1", .semtest)],
    [("sy2", .locktest), ("sy3", .cvtest)],
    [("fs1", .fstest), ("fs2", .readstress), ("fs3", .writestress), ("fs4", .writestress2),
      ("fs5", .createstress)]]

/-- The search of the table for the first word. -/
def findCommand (opt : Options) (word : Text) : Option CmdFunc :=
  ((cmdtable opt).find? fun entry => entry.1 ≠ "" && word == entry.1.toList).map Prod.snd

def getinterval (s1 : Int32) (ns1 : UInt32) (s2 : Int32) (ns2 : UInt32) : Int32 × UInt32 :=
  if ns2 < ns1 then (s2 - 1 - s1, ns2 + 1000000000 - ns1) else (s2 - s1, ns2 - ns1)

/-! ## The dispatcher -/

inductive Printed where
  | str (text : Text)
  | ulong (value : UInt32)
  deriving DecidableEq

inductive Event where
  | kprintf (format : String) (args : List Printed)
  | called (func : CmdFunc) (words : List Text) (result : Option Int)
  deriving DecidableEq

/-- What ends a line before its time. `overrun` is a write past the last of the `args`. -/
inductive Halt where
  | outOfFuel
  | overrun
  | stopped
  | panicked (message : String)
  deriving DecidableEq

abbrev Args := Vector Nat MAXMENUARGS

/-- The code outside of the menu. A command function that does not return has no result; `fresh`
is on the stack where `args` is put. -/
structure Environment (ω : Type) where
  options : Options
  fresh : Args
  gettime : ω → Int32 × UInt32 × ω
  strerror : Int → Text
  run : CmdFunc → (nargs : Nat) → Args → Text → ω → Option (Int × Text × ω)

structure State (ω : Type) where
  buf : Text
  log : List Event
  world : ω

variable {ω : Type}

def State.add (s : State ω) (event : Event) : State ω := { s with log := s.log ++ [event] }

/-- `args[nargs] = word`, which must not be past the end of the array. -/
def store (args : Args) (nargs word : Nat) : Option Args :=
  if h : nargs < MAXMENUARGS then some (args.set nargs word h) else none

/-- The loop over the words of a command: the arguments, or nothing for too many of them. -/
def wordLoop : Nat → Text → (str context : Option Nat) → Args → (nargs : Nat) →
    Except Halt (Option (Args × Nat)) × Text
  | 0, buf, _, _, _, _ => (.error .outOfFuel, buf)
  | fuel + 1, buf, str, context, args, nargs =>
    match strtokR nul buf str [' ', '\t'] context with
    | (none, _, buf) => (.ok (some (args, nargs)), buf)
    | (some word, context, buf) =>
      if MAXMENUARGS ≤ nargs then (.ok none, buf)
      else
        match store args nargs word with
        | some args => wordLoop fuel buf none context args (nargs + 1)
        | none => (.error .overrun, buf)

/-- A call of a function of the table, which is timed. -/
def runCommand (K : Environment ω) (func : CmdFunc) (nargs : Nat) (args : Args) (s : State ω) :
    Except Halt Int × State ω :=
  let words := (args.toList.take nargs).map (cstring nul s.buf)
  let (beforesecs, beforensecs, world) := K.gettime s.world
  match K.run func nargs args s.buf world with
  | none => (.error .stopped, s.add (.called func words none))
  | some (result, buf, world) =>
    let (aftersecs, afternsecs, world) := K.gettime world
    let (secs, nsecs) := getinterval beforesecs beforensecs aftersecs afternsecs
    let s := s.add (.called func words (some result))
    (.ok result, { s with buf, world }.add
      (.kprintf "Operation took %lu.%09lu seconds\n" [.ulong secs.toUInt32, .ulong nsecs]))

/-- `cmd_dispatch` -/
def cmdDispatch (K : Environment ω) (fuel cmd : Nat) (s : State ω) :
    Except Halt Int × State ω :=
  match wordLoop fuel s.buf (some cmd) none K.fresh 0 with
  | (.error halt, buf) => (.error halt, { s with buf })
  | (.ok none, buf) =>
    (.ok E2BIG, { s with buf }.add (.kprintf "Command line has too many words\n" []))
  | (.ok (some (args, nargs)), buf) =>
    let s := { s with buf }
    if nargs = 0 then (.ok 0, s)
    else
      match findCommand K.options (cstring nul buf args[0]) with
      | some func => runCommand K func nargs args s
      | none =>
        (.ok EINVAL, s.add (.kprintf "%s: Command not found\n" [.str (cstring nul buf args[0])]))

/-- The loop over the commands of a line. -/
def commandLoop (K : Environment ω) (isargs : Bool) :
    Nat → (str context : Option Nat) → State ω → Except Halt Unit × State ω
  | 0, _, _, s => (.error .outOfFuel, s)
  | fuel + 1, str, context, s =>
    match strtokR nul s.buf str [';'] context with
    | (none, _, buf) => (.ok (), { s with buf })
    | (some command, context, buf) =>
      let s := { s with buf }
      let s := if isargs then
          s.add (.kprintf "OS/161 kernel: %s\n" [.str (cstring nul buf command)])
        else s
      match cmdDispatch K (fuel + 1) command s with
      | (.error halt, s) => (.error halt, s)
      | (.ok result, s) =>
        if result = 0 then commandLoop K isargs fuel none context s
        else
          let s := s.add (.kprintf "Menu command failed: %s\n" [.str (K.strerror result)])
          if isargs then (.error (.panicked "Failure processing kernel arguments\n"), s)
          else commandLoop K isargs fuel none context s

/-- `menu_execute` -/
def menuExecute (K : Environment ω) (fuel line : Nat) (isargs : Bool) (s : State ω) :
    Except Halt Unit × State ω :=
  commandLoop K isargs fuel (some line) none s

/-! ## What a line means -/

/-- The pieces between semicolons that are not empty. -/
def segments (line : Text) : List Text := tokens [';'] line

/-- The words between spaces and tabs. -/
def words (segment : Text) : List Text := tokens [' ', '\t'] segment

/-- What a command does: its log and its result. -/
inductive Dispatched (opt : Options) : List Text → List Event → Except Halt Int → Prop
  | nothing : Dispatched opt [] [] (.ok 0)
  | tooMany {words : List Text} (hMany : MAXMENUARGS < words.length) :
      Dispatched opt words [.kprintf "Command line has too many words\n" []] (.ok E2BIG)
  | notFound {name : Text} {rest : List Text} (hFew : (name :: rest).length ≤ MAXMENUARGS)
      (hName : ∀ entry ∈ cmdtable opt, entry.1.toList ≠ name) :
      Dispatched opt (name :: rest) [.kprintf "%s: Command not found\n" [.str name]] (.ok EINVAL)
  | ran {name : String} {rest : List Text} {func : CmdFunc} {result : Int} {secs nsecs : UInt32}
      (hFew : (name.toList :: rest).length ≤ MAXMENUARGS) (hEntry : (name, func) ∈ cmdtable opt) :
      Dispatched opt (name.toList :: rest) [.called func (name.toList :: rest) (some result),
        .kprintf "Operation took %lu.%09lu seconds\n" [.ulong secs, .ulong nsecs]] (.ok result)
  | stopped {name : String} {rest : List Text} {func : CmdFunc}
      (hFew : (name.toList :: rest).length ≤ MAXMENUARGS) (hEntry : (name, func) ∈ cmdtable opt) :
      Dispatched opt (name.toList :: rest) [.called func (name.toList :: rest) none]
        (.error .stopped)

/-- A command of the kernel's own arguments is printed first. -/
def echo (isargs : Bool) (segment : Text) : List Event :=
  if isargs then [.kprintf "OS/161 kernel: %s\n" [.str segment]] else []

def failure (K : Environment ω) (result : Int) : Event :=
  .kprintf "Menu command failed: %s\n" [.str (K.strerror result)]

/-- The commands are dispatched one after the other, up to one that does not return or, when the
line is the kernel's own arguments, fails. -/
inductive Executes (K : Environment ω) (isargs : Bool) :
    List Text → List Event → Except Halt Unit → Prop
  | done : Executes K isargs [] [] (.ok ())
  | succeeded {segment : Text} {rest : List Text} {log later : List Event}
      {result : Except Halt Unit} (hFirst : Dispatched K.options (words segment) log (.ok 0))
      (hRest : Executes K isargs rest later result) :
      Executes K isargs (segment :: rest) (echo isargs segment ++ log ++ later) result
  | failed {segment : Text} {rest : List Text} {log later : List Event} {code : Int}
      {result : Except Halt Unit} (hInteractive : isargs = false) (hCode : code ≠ 0)
      (hFirst : Dispatched K.options (words segment) log (.ok code))
      (hRest : Executes K isargs rest later result) :
      Executes K isargs (segment :: rest)
        (echo isargs segment ++ log ++ failure K code :: later) result
  | panicked {segment : Text} {rest : List Text} {log : List Event} {code : Int}
      (hArgs : isargs = true) (hCode : code ≠ 0)
      (hFirst : Dispatched K.options (words segment) log (.ok code)) :
      Executes K isargs (segment :: rest) (echo isargs segment ++ log ++ [failure K code])
        (.error (.panicked "Failure processing kernel arguments\n"))
  | stopped {segment : Text} {rest : List Text} {log : List Event}
      (hFirst : Dispatched K.options (words segment) log (.error .stopped)) :
      Executes K isargs (segment :: rest) (echo isargs segment ++ log) (.error .stopped)

/-- The function and the arguments of a segment that has a command. -/
def commandOf (opt : Options) (segment : Text) : Option (CmdFunc × List Text) :=
  match words segment with
  | [] => none
  | name :: rest =>
    if MAXMENUARGS < (name :: rest).length then none
    else (findCommand opt name).map (·, name :: rest)

/-- The calls in a log. -/
def calls (log : List Event) : List (CmdFunc × List Text) :=
  log.filterMap fun
    | .called func words _ => some (func, words)
    | .kprintf _ _ => none

/-- A line is run as it was typed. -/
structure RunsLine (K : Environment ω) (isargs : Bool) (line : Text) (log : List Event)
    (result : Except Halt Unit) : Prop where
  executes : Executes K isargs (segments line) log result
  calls_prefix : calls log <+: (segments line).filterMap (commandOf K.options)
  calls_eq (hEnd : result = .ok ()) :
    calls log = (segments line).filterMap (commandOf K.options)
  interactive (hInteractive : isargs = false) : result = .ok () ∨ result = .error .stopped
  no_overrun : result ≠ .error .overrun
  enough_fuel : result ≠ .error .outOfFuel

/-- A function called for the words of a segment leaves what is behind the segment. -/
def KeepsRest (K : Environment ω) : Prop :=
  ∀ ⦃fuel cmd : Nat⦄ ⦃segment buf buf' buf'' : Text⦄ ⦃args : Args⦄ ⦃nargs : Nat⦄ ⦃func : CmdFunc⦄
    ⦃world world' : ω⦄ ⦃result : Int⦄, StringAt nul buf cmd segment →
    wordLoop fuel buf (some cmd) none K.fresh 0 = (.ok (some (args, nargs)), buf') →
    K.run func nargs args buf' world = some (result, buf'', world') →
    buf''.drop (cmd + segment.length) = buf'.drop (cmd + segment.length)

/-! ## The words of a command -/

section Words

variable {seps buf buf' text word rest segment : Text} {str context context' : Option Nat}
  {args args' : Args} {nargs fuel cmd e head : Nat} {collected : List Text}

/-- The first `nargs` of the `args` point to these words, which the tokenizer has passed. -/
structure Collected (buf : Text) (context : Option Nat) (args : Args) (nargs : Nat)
    (collected : List Text) : Prop where
  length_eq : collected.length = nargs
  le : nargs ≤ MAXMENUARGS
  words : List.Forall₂ (fun head word => StringAt nul buf head word ∧ Passed context head word)
    (args.toList.take nargs) collected

theorem store_eq (args : Args) (word : Nat) (h : nargs < MAXMENUARGS) :
    ∃ args', store args nargs word = some args' ∧
      args'.toList.take (nargs + 1) = args.toList.take nargs ++ [word] := by
  refine ⟨args.set nargs word h, dif_pos h, ?_⟩
  rw [Vector.toList_set, List.take_add_one, List.take_set_of_le le_rfl]
  simp [h]

namespace Collected

theorem fresh (buf : Text) (context : Option Nat) (args : Args) :
    Collected buf context args 0 [] where
  length_eq := rfl
  le := Nat.zero_le _
  words := .nil

theorem add (h : Collected buf context args nargs collected) (hRoom : nargs < MAXMENUARGS)
    (hTaken : Taken nul seps buf context text e head word rest context' buf')
    (hStore : args'.toList.take (nargs + 1) = args.toList.take nargs ++ [head]) :
    Collected buf' context' args' (nargs + 1) (collected ++ [word]) where
  length_eq := by rw [List.length_append, h.length_eq, List.length_singleton]
  le := hRoom
  words := by
    have hKept := h.words.imp fun a w ⟨hAt, hPassed⟩ => hTaken.keeps a w hAt hPassed
    rw [hStore]
    exact List.rel_append hKept (.cons ⟨hTaken.word_at, hTaken.passed⟩ .nil)

/-- What a function finds in its arguments. -/
theorem map_cstring (h : Collected buf context args nargs collected) :
    (args.toList.take nargs).map (cstring nul buf) = collected := by
  rw [← List.forall₂_eq_eq_eq, List.forall₂_map_left_iff]
  exact h.words.imp fun _ _ ⟨hAt, _⟩ => hAt.cstring_eq

theorem cstring_first (h : Collected buf context args nargs (word :: collected)) :
    cstring nul buf args[0] = word := by
  have hPos : nargs ≠ 0 := by
    rw [← h.length_eq, List.length_cons]
    omega
  have hFirst : (args.toList.take nargs).head? = some args[0] := by
    rw [List.head?_take, if_neg hPos, List.head?_eq_getElem?]
    simp
  have hWords := congrArg List.head? h.map_cstring
  rw [List.head?_map, hFirst] at hWords
  exact Option.some.inj hWords

end Collected

/-- All words have been collected, or there are too many of them. -/
def Counted (buf : Text) (all : List Text) : Option (Args × Nat) → Prop
  | none => MAXMENUARGS < all.length
  | some (args, nargs) => ∃ context, Collected buf context args nargs all

theorem wordLoop_spec (str context : Option Nat) (hFuel : text.length < fuel)
    (hAhead : Ahead nul buf (str.or context) text e)
    (h : Collected buf (str.or context) args nargs collected) :
    ∃ outcome buf', wordLoop fuel buf str context args nargs = (.ok outcome, buf') ∧
      buf'.drop e = buf.drop e ∧ Counted buf' (collected ++ words text) outcome := by
  induction fuel generalizing buf str context args nargs collected text with
  | zero => omega
  | succ fuel ih =>
    unfold wordLoop
    rcases strtokR_spec [' ', '\t'] hAhead with
      ⟨hNone, hCall⟩ | ⟨head, word, rest, context', buf', hCall, hTaken⟩
    · have hWords : words text = [] := hNone
      rw [hCall, hWords, List.append_nil]
      exact ⟨_, _, rfl, rfl, _, h⟩
    · have hWords : words text = word :: words rest := hTaken.tokens_eq
      rw [hCall]
      dsimp only
      by_cases hFull : MAXMENUARGS ≤ nargs
      · -- the word that is one too many
        rw [if_pos hFull]
        refine ⟨none, buf', rfl, hTaken.beyond, ?_⟩
        have hLength := h.length_eq
        simp only [Counted, hWords, List.length_append, List.length_cons]
        omega
      · have hRoom := Nat.lt_of_not_le hFull
        obtain ⟨args', hStore, hTake⟩ := store_eq args head hRoom
        rw [if_neg hFull, hStore, hWords]
        dsimp only
        have hShorter : rest.length < fuel := by
          have hLess := hTaken.length_lt
          omega
        obtain ⟨outcome, buf'', hLoop, hBeyond, hCounted⟩ :=
          ih none context' hShorter hTaken.ahead (h.add hRoom hTaken hTake)
        rw [List.append_assoc, List.singleton_append] at hCounted
        exact ⟨outcome, buf'', hLoop, hBeyond.trans hTaken.beyond, hCounted⟩

end Words

/-! ## One command -/

section Dispatch

variable {K : Environment ω} {s : State ω} {segment name : Text} {fuel cmd : Nat} {func : CmdFunc}

theorem findCommand_some (h : findCommand K.options name = some func) :
    ∃ entry, name = entry.toList ∧ (entry, func) ∈ cmdtable K.options := by
  obtain ⟨⟨entry, func'⟩, hFind, rfl⟩ := Option.map_eq_some_iff.mp h
  have hTest := List.find?_some hFind
  rw [Bool.and_eq_true, beq_iff_eq] at hTest
  exact ⟨entry, hTest.2, List.mem_of_find?_eq_some hFind⟩

theorem findCommand_none (h : findCommand K.options name = none) (hName : name ≠ []) :
    ∀ entry ∈ cmdtable K.options, entry.1.toList ≠ name := by
  intro entry hEntry hSame
  have hFind := Option.map_eq_none_iff.mp h
  have hTest := List.find?_eq_none.mp hFind entry hEntry
  have hNonempty : entry.1 ≠ "" := by
    intro hEmpty
    rw [hEmpty] at hSame
    exact hName hSame.symm
  simp [hSame, hNonempty] at hTest

theorem Dispatched.eq_stopped {opt : Options} {names : List Text} {log : List Event} {halt : Halt}
    (h : Dispatched opt names log (.error halt)) : halt = .stopped := by
  cases h
  rfl

/-- A call for these words, which leaves the buffer from `e` on. -/
theorem runCommand_spec {rest : List Text} {args : Args} {nargs e : Nat}
    (hFew : (name :: rest).length ≤ MAXMENUARGS) (hFind : findCommand K.options name = some func)
    (hWords : (args.toList.take nargs).map (cstring nul s.buf) = name :: rest)
    (hRun : ∀ ⦃result buf' world world'⦄, K.run func nargs args s.buf world =
      some (result, buf', world') → buf'.drop e = s.buf.drop e) :
    ∃ log result s', runCommand K func nargs args s = (result, s') ∧ s'.log = s.log ++ log ∧
      Dispatched K.options (name :: rest) log result ∧
        (∀ code, result = .ok code → s'.buf.drop e = s.buf.drop e) := by
  obtain ⟨entry, rfl, hEntry⟩ := findCommand_some hFind
  unfold runCommand
  rw [hWords]
  generalize hTime : K.gettime s.world = before
  obtain ⟨beforesecs, beforensecs, world⟩ := before
  dsimp only
  cases hResult : K.run func nargs args s.buf world with
  | none =>
    refine ⟨_, _, _, rfl, rfl, .stopped hFew hEntry, ?_⟩
    rintro code ⟨⟩
  | some ran =>
    obtain ⟨result, buf', world'⟩ := ran
    refine ⟨_, _, _, rfl, List.append_assoc _ _ _, .ran hFew hEntry, ?_⟩
    intro code _
    exact hRun hResult

/-- `cmd_dispatch` does what the words say, and leaves what is behind the command. -/
theorem cmdDispatch_spec (hKeeps : KeepsRest K) (hFuel : segment.length < fuel)
    (hSegment : StringAt nul s.buf cmd segment) :
    ∃ log result s', cmdDispatch K fuel cmd s = (result, s') ∧ s'.log = s.log ++ log ∧
      Dispatched K.options (words segment) log result ∧
        (∀ code, result = .ok code →
          s'.buf.drop (cmd + segment.length) = s.buf.drop (cmd + segment.length)) := by
  obtain ⟨outcome, buf', hLoop, hBeyond, hCounted⟩ := wordLoop_spec (some cmd) none hFuel
    ⟨hSegment, rfl⟩ (Collected.fresh s.buf (some cmd) K.fresh)
  rw [List.nil_append] at hCounted
  unfold cmdDispatch
  rw [hLoop]
  cases outcome with
  | none => exact ⟨_, _, _, rfl, rfl, .tooMany hCounted, fun _ _ => hBeyond⟩
  | some collected =>
    obtain ⟨args, nargs⟩ := collected
    obtain ⟨context, hCollected⟩ := hCounted
    dsimp only
    cases hWords : words segment with
    | nil =>
      rw [hWords] at hCollected
      have hNargs : nargs = 0 := hCollected.length_eq.symm
      rw [if_pos hNargs]
      exact ⟨[], _, _, rfl, (List.append_nil _).symm, .nothing, fun _ _ => hBeyond⟩
    | cons name rest =>
      have hName : name ≠ [] := by
        have hMem : name ∈ words segment := hWords ▸ List.mem_cons_self
        exact ne_nil_of_mem_tokens hMem
      rw [hWords] at hCollected
      have hFew : (name :: rest).length ≤ MAXMENUARGS := hCollected.length_eq ▸ hCollected.le
      have hNargs : nargs ≠ 0 := by
        rw [← hCollected.length_eq]
        exact Nat.succ_ne_zero _
      rw [if_neg hNargs, hCollected.cstring_first]
      cases hFind : findCommand K.options name with
      | none =>
        exact ⟨_, _, _, rfl, rfl, .notFound hFew (findCommand_none hFind hName),
          fun _ _ => hBeyond⟩
      | some func =>
        obtain ⟨log, result, s', hRun, hLog, hDispatched, hKept⟩ :=
          runCommand_spec (s := { s with buf := buf' }) hFew hFind hCollected.map_cstring
            fun _ _ _ _ h => hKeeps hSegment hLoop h
        exact ⟨log, result, s', hRun, hLog, hDispatched, fun code h =>
          (hKept code h).trans hBeyond⟩

end Dispatch

/-! ## Lines -/

section Lines

variable {K : Environment ω} {s : State ω} {text buf : Text} {str context : Option Nat}
  {fuel line e : Nat} {isargs : Bool} {segs : List Text} {log : List Event}
  {result : Except Halt Unit}

theorem echo_eq (s : State ω) (segment : Text) :
    (if isargs then s.add (.kprintf "OS/161 kernel: %s\n" [.str segment]) else s) =
      { s with log := s.log ++ echo isargs segment } := by
  cases isargs with
  | true => rfl
  | false => rw [echo, if_neg Bool.false_ne_true, if_neg Bool.false_ne_true, List.append_nil]

/-- The segments that are ahead are executed. -/
theorem commandLoop_spec (str context : Option Nat) (hKeeps : KeepsRest K)
    (hFuel : text.length < fuel) (hAhead : Ahead nul s.buf (str.or context) text e) :
    ∃ log result s', commandLoop K isargs fuel str context s = (result, s') ∧
      s'.log = s.log ++ log ∧ Executes K isargs (segments text) log result := by
  induction fuel generalizing s str context text with
  | zero => omega
  | succ fuel ih =>
    unfold commandLoop
    rcases strtokR_spec [';'] hAhead with
      ⟨hNone, hCall⟩ | ⟨head, segment, rest, context', buf', hCall, hTaken⟩
    · have hSegments : segments text = [] := hNone
      rw [hCall, hSegments]
      exact ⟨[], _, _, rfl, (List.append_nil _).symm, .done⟩
    · have hSegments : segments text = segment :: segments rest := hTaken.tokens_eq
      have hSegmentFuel : segment.length < fuel + 1 := by
        have hLength := hTaken.word_length_le
        omega
      have hRestFuel : rest.length < fuel := by
        have hLess := hTaken.length_lt
        omega
      have hSegment := hTaken.word_at
      obtain ⟨log, result, s', hDispatch, hLog, hDispatched, hKept⟩ := cmdDispatch_spec
        (s := { s with buf := buf', log := s.log ++ echo isargs segment }) hKeeps hSegmentFuel
        hSegment
      rw [hCall, hSegments]
      dsimp only
      rw [hSegment.cstring_eq, echo_eq, hDispatch]
      cases result with
      | error halt =>
        have hStopped := hDispatched.eq_stopped
        subst hStopped
        refine ⟨_, _, _, rfl, ?_, .stopped hDispatched⟩
        rw [hLog, List.append_assoc]
      | ok code =>
        -- the outer context is behind the segment, so the dispatch has left the rest
        have hRest := hTaken.ahead.of_drop hTaken.passed (hKept code rfl)
        dsimp only
        by_cases hCode : code = 0
        · subst hCode
          obtain ⟨later, result, s'', hLoop, hLater, hExecutes⟩ :=
            ih (s := s') none context' hRestFuel hRest
          rw [if_pos rfl, hLoop]
          refine ⟨_, _, _, rfl, ?_, .succeeded hDispatched hExecutes⟩
          rw [hLater, hLog]
          simp only [List.append_assoc]
        · rw [if_neg hCode]
          cases isargs with
          | true =>
            rw [if_pos rfl]
            refine ⟨_, _, _, rfl, ?_, .panicked rfl hCode hDispatched⟩
            rw [State.add, hLog, failure]
            simp only [List.append_assoc]
          | false =>
            obtain ⟨later, result, s'', hLoop, hLater, hExecutes⟩ :=
              ih (s := s'.add (failure K code)) none context' hRestFuel hRest
            rw [if_neg Bool.false_ne_true]
            refine ⟨_, _, _, hLoop, ?_, .failed rfl hCode hDispatched hExecutes⟩
            rw [hLater, State.add, hLog]
            simp only [List.append_assoc, List.singleton_append]

/-! ### The calls in the log -/

/-- No name of the table is empty or stands there twice. -/
theorem findCommand_of_mem (opt : Options) :
    ∀ entry ∈ cmdtable opt, findCommand opt entry.1.toList = some entry.2 := by
  obtain ⟨optSynchprobs, optNet⟩ := opt
  cases optSynchprobs <;> cases optNet <;> decide +kernel

theorem findCommand_of_not_mem {opt : Options} {name : Text}
    (h : ∀ entry ∈ cmdtable opt, entry.1.toList ≠ name) : findCommand opt name = none := by
  rw [findCommand, Option.map_eq_none_iff, List.find?_eq_none]
  intro entry hEntry hTest
  rw [Bool.and_eq_true, beq_iff_eq] at hTest
  exact h entry hEntry hTest.2.symm

theorem calls_append (log later : List Event) : calls (log ++ later) = calls log ++ calls later :=
  List.filterMap_append

theorem calls_echo (isargs : Bool) (segment : Text) : calls (echo isargs segment) = [] := by
  cases isargs <;> rfl

/-- The command of a segment is called, and nothing else. -/
theorem calls_dispatched {opt : Options} {segment : Text} {log : List Event}
    {result : Except Halt Int} (h : Dispatched opt (words segment) log result) :
    calls log = (commandOf opt segment).toList := by
  unfold commandOf
  cases hWords : words segment with
  | nil =>
    rw [hWords] at h
    cases h with
    | nothing => rfl
    | tooMany hMany => exact absurd hMany (Nat.not_lt_zero _)
  | cons name rest =>
    rw [hWords] at h
    dsimp only
    cases h with
    | tooMany hMany =>
      rw [if_pos hMany]
      rfl
    | notFound hFew hName =>
      rw [if_neg (Nat.not_lt.mpr hFew), findCommand_of_not_mem hName]
      rfl
    | ran hFew hEntry =>
      rw [if_neg (Nat.not_lt.mpr hFew), findCommand_of_mem opt _ hEntry]
      rfl
    | stopped hFew hEntry =>
      rw [if_neg (Nat.not_lt.mpr hFew), findCommand_of_mem opt _ hEntry]
      rfl

theorem filterMap_commandOf {opt : Options} {segment : Text} {log : List Event}
    {first : Except Halt Int} (h : Dispatched opt (words segment) log first) (segs : List Text) :
    (segment :: segs).filterMap (commandOf opt) = calls log ++ segs.filterMap (commandOf opt) := by
  rw [calls_dispatched h]
  cases hCommand : commandOf opt segment with
  | none => rw [List.filterMap_cons_none hCommand, Option.toList_none, List.nil_append]
  | some call => rw [List.filterMap_cons_some hCommand, Option.toList_some, List.singleton_append]

/-- The commands are called in their order, all of them when the line ends. -/
theorem Executes.calls (h : Executes K isargs segs log result) :
    ∃ missed, segs.filterMap (commandOf K.options) = calls log ++ missed ∧
      (result = .ok () → missed = []) := by
  induction h with
  | done => exact ⟨[], rfl, fun _ => rfl⟩
  | succeeded hFirst _ ih =>
    obtain ⟨missed, hCalls, hEnd⟩ := ih
    refine ⟨missed, ?_, hEnd⟩
    rw [filterMap_commandOf hFirst, hCalls, calls_append, calls_append, calls_echo,
      List.nil_append, List.append_assoc]
  | failed _ _ hFirst _ ih =>
    obtain ⟨missed, hCalls, hEnd⟩ := ih
    refine ⟨missed, ?_, hEnd⟩
    rw [filterMap_commandOf hFirst, hCalls, calls_append, calls_append, calls_echo,
      List.nil_append, List.append_assoc]
    rfl
  | @panicked _ rest _ _ _ _ hFirst =>
    refine ⟨rest.filterMap (commandOf K.options), ?_, ?_⟩
    · rw [filterMap_commandOf hFirst, calls_append, calls_append, calls_echo, List.nil_append,
        List.append_assoc]
      rfl
    · rintro ⟨⟩
  | @stopped _ rest _ hFirst =>
    refine ⟨rest.filterMap (commandOf K.options), ?_, ?_⟩
    · rw [filterMap_commandOf hFirst, calls_append, calls_echo, List.nil_append]
    · rintro ⟨⟩

/-- Only a command that does not return ends a line early, or one of the kernel's own arguments
that fails. -/
theorem Executes.ending (h : Executes K isargs segs log result) :
    result = .ok () ∨ result = .error .stopped ∨ isargs = true ∧
      result = .error (.panicked "Failure processing kernel arguments\n") := by
  induction h with
  | done => exact .inl rfl
  | succeeded _ _ ih => exact ih
  | failed _ _ _ _ ih => exact ih
  | panicked hArgs => exact .inr (.inr ⟨hArgs, rfl⟩)
  | stopped => exact .inr (.inl rfl)

theorem Executes.runsLine (h : Executes K isargs (segments text) log result) :
    RunsLine K isargs text log result where
  executes := h
  calls_prefix := by
    obtain ⟨missed, hCalls, _⟩ := h.calls
    exact ⟨missed, hCalls.symm⟩
  calls_eq hEnd := by
    obtain ⟨missed, hCalls, hNone⟩ := h.calls
    rw [hCalls, hNone hEnd, List.append_nil]
  interactive hInteractive := by
    rcases h.ending with hEnd | hStopped | ⟨hArgs, _⟩
    · exact .inl hEnd
    · exact .inr hStopped
    · rw [hArgs] at hInteractive
      cases hInteractive
  no_overrun := by
    rcases h.ending with rfl | rfl | ⟨_, rfl⟩ <;> rintro ⟨⟩
  enough_fuel := by
    rcases h.ending with rfl | rfl | ⟨_, rfl⟩ <;> rintro ⟨⟩

/-- **The menu runs the commands that are typed.** -/
theorem menuExecute_runsLine (hKeeps : KeepsRest K) (hLine : StringAt nul s.buf line text)
    (hFuel : text.length < fuel) (isargs : Bool) :
    ∃ log result s', menuExecute K fuel line isargs s = (result, s') ∧ s'.log = s.log ++ log ∧
      RunsLine K isargs text log result := by
  obtain ⟨log, result, s', hRun, hLog, hExecutes⟩ :=
    commandLoop_spec (some line) none hKeeps hFuel ⟨hLine, rfl⟩
  exact ⟨log, result, s', hRun, hLog, hExecutes.runsLine⟩

/-- A kernel in which a `cd` without a directory fails. -/
def quietKernel : Environment Unit where
  options := ⟨false, false⟩
  fresh := Vector.replicate MAXMENUARGS 0
  gettime world := (0, 0, world)
  strerror code :=
    if code = EINVAL then "Invalid argument".toList
    else if code = E2BIG then "Argument list too long".toList
    else []
  run func nargs _ buf world :=
    some (if func = .cmdChdir ∧ nargs ≠ 2 then EINVAL else 0, buf, world)

theorem keepsRest_quietKernel : KeepsRest quietKernel := by
  intro fuel cmd segment buf buf' buf'' args nargs func world world' result _ _ hRun
  cases hRun
  rfl

/-- An unknown command, a `cd` that fails, blanks and a command of seventeen words between two
that run. -/
def mixedLine : Text :=
  "kh;; nosuch x;cd ; \t;p 1 2 3 4 5 6 7 8 9 10 11 12 13 14 15 16;\tcd  lhd0: ".toList

theorem menuExecute_runsLine_mixedLine :
    ∃ log result s', menuExecute quietKernel 80 0 false ⟨mixedLine ++ [nul], [], ()⟩ =
        (result, s') ∧ s'.log = [] ++ log ∧ RunsLine quietKernel false mixedLine log result ∧
      calls log = [(.cmdKheapstats, ["kh".toList]), (.cmdChdir, ["cd".toList]),
        (.cmdChdir, ["cd".toList, "lhd0:".toList])] := by
  have hLine : StringAt nul (mixedLine ++ [nul]) 0 mixedLine :=
    ⟨List.prefix_rfl, by decide +kernel⟩
  have hFuel : mixedLine.length < 80 := by decide +kernel
  have hCalls : calls (menuExecute quietKernel 80 0 false ⟨mixedLine ++ [nul], [], ()⟩).2.log =
      [(.cmdKheapstats, ["kh".toList]), (.cmdChdir, ["cd".toList]),
        (.cmdChdir, ["cd".toList, "lhd0:".toList])] := by
    decide +kernel
  obtain ⟨log, result, s', hRun, hLog, hRuns⟩ := menuExecute_runsLine
    (s := ⟨mixedLine ++ [nul], [], ()⟩) keepsRest_quietKernel hLine hFuel false
  rw [hRun, hLog, List.nil_append] at hCalls
  exact ⟨log, result, s', hRun, hLog, hRuns, hCalls⟩

end Lines

end Windborne.OS161.Menu
