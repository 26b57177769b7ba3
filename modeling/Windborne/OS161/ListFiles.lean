import Mathlib.Data.List.Nodup
import Windborne.Library.Feeds
import Windborne.Library.Results

/-!
# `ls`

The options, the listing of one directory and the recursion into its subdirectories, down to the
system calls. A tree has what these calls return for the paths below a path, failures included.
Whatever the tree is, `ls` prints what the tree says, in preorder, up to the first call that fails.
-/

namespace Windborne.OS161.ListFiles

open Library

/-! ## System calls -/

abbrev Text := List Char

/-- `st_mode & S_IFMT` -/
inductive FileType where
  | regular
  | directory
  | link
  | characterDevice
  | blockDevice
  | other
  deriving DecidableEq

/-- `size` is signed in the source, and the other two words are not. -/
structure Stat where
  type : FileType
  nlink : BitVec 32
  size : BitVec 32
  blocks : BitVec 32

/-- Which paths can be opened, what `fstat` returns, and the names that `getdirentry` returns before
it returns zero, or fails. -/
structure Files where
  opens : Text → Bool
  fstat : Text → Option Stat
  names : Text → List Text
  complete : Text → Bool

/-! ## The program -/

/-- `exit` with its code and the message of `err` or `errx`. -/
inductive Stop where
  | exit (code : Nat) (message : Text)
  | outOfFuel
  deriving DecidableEq

/-- Whether no header has been printed, and what has been printed. -/
structure Io where
  first : Bool
  printed : Text
  deriving DecidableEq

abbrev Ls := ExceptT Stop (StateM Io)

structure Options where
  aopt : Bool
  dopt : Bool
  lopt : Bool
  Ropt : Bool
  sopt : Bool
  deriving DecidableEq

def printf (text : Text) : Ls Unit := modify fun io => { io with printed := io.printed ++ text }

def err {α : Type} (message : Text) : Ls α := throw (.exit 1 message)

/-- Process an option character. -/
def option (opts : Options) : Char → Except Stop Options
  | 'a' => return { opts with aopt := true }
  | 'd' => return { opts with dopt := true }
  | 'l' => return { opts with lopt := true }
  | 'R' => return { opts with Ropt := true }
  | 's' => return { opts with sopt := true }
  | ch => throw (.exit 1 ("Unknown option -".toList ++ [ch]))

/-- The part behind the last slash. -/
def basename (path : Text) : Text := (path.reverse.takeWhile (· ≠ '/')).reverse

/-- `open` and `fstat` with their checks. -/
def fstat (files : Files) (path : Text) : Ls Stat :=
  if ¬files.opens path then err path
  else
    match files.fstat path with
    | none => err (path ++ ": fstat".toList)
    | some buf => return buf

def isdir (files : Files) (path : Text) : Ls Bool := do
  let buf ← fstat files path
  return buf.type = .directory

def printheader (file : Text) : Ls Unit := do
  if (← get).first then
    modify fun io => { io with first := false }
  else
    printf ['\n']
  printf (file ++ [':', '\n'])

def typech : FileType → Char
  | .regular => '-'
  | .directory => 'd'
  | .link => 'l'
  | .characterDevice => 'c'
  | .blockDevice => 'b'
  | .other => '?'

/-- `%d` of a word, whatever its type is -/
def signed (w : BitVec 32) : Text :=
  (if w.toInt < 0 then ['-'] else []) ++ Nat.toDigits 10 w.toInt.natAbs

/-- `%u` of a word -/
def unsigned (w : BitVec 32) : Text := Nat.toDigits 10 w.toNat

/-- `"%3d "` -/
def blocksText (statbuf : Stat) : Text := (signed statbuf.blocks).leftpad 3 ' ' ++ [' ']

/-- `"%crwx------ %2d root  %-8u"` -/
def longText (statbuf : Stat) : Text :=
  typech statbuf.type :: "rwx------ ".toList ++ (signed statbuf.nlink).leftpad 2 ' ' ++
    " root  ".toList ++ (unsigned statbuf.size).rightpad 8 ' '

def print (files : Files) (opts : Options) (path : Text) : Ls Unit := do
  if opts.lopt ∨ opts.sopt then
    let statbuf ← fstat files path
    if opts.sopt then
      printf (blocksText statbuf)
    if opts.lopt then
      printf (longText statbuf)
  printf (basename path ++ ['\n'])

/-- `snprintf(newpath, sizeof(newpath), "%s/%s", path, buf)` -/
def newpath (path buf : Text) : Text := (path ++ '/' :: buf).take 1023

def dot : Text := ['.']

def dotdot : Text := ['.', '.']

def listdir (files : Files) (opts : Options) (path : Text) (showheader : Bool) : Ls Unit := do
  if showheader then
    printheader path
  if ¬files.opens path then
    err path
  (files.names path).forM fun buf => do
    if opts.aopt ∨ buf.head? ≠ some '.' then
      print files opts (newpath path buf)
  if ¬files.complete path then
    err (path ++ ": getdirentry".toList)

def recursedir (files : Files) (opts : Options) : Nat → Text → Ls Unit
  | 0, _ => throw .outOfFuel
  | fuel + 1, path => do
    if ¬files.opens path then
      err path
    (files.names path).forM fun buf => do
      if ¬opts.aopt ∧ buf.head? = some '.' then
        return
      if buf = dot ∨ buf = dotdot then
        return
      if ← isdir files (newpath path buf) then
        listdir files opts (newpath path buf) true
        if opts.Ropt then
          recursedir files opts fuel (newpath path buf)
    if ¬files.complete path then
      err path

def listitem (files : Files) (opts : Options) (fuel : Nat) (path : Text) (showheader : Bool) :
    Ls Unit := do
  if opts.dopt then
    print files opts path
  else if ← isdir files path then
    listdir files opts path (showheader || opts.Ropt)
    if opts.Ropt then
      recursedir files opts fuel path
  else
    print files opts path

def isOption (arg : Text) : Prop := arg.head? = some '-'

instance : DecidablePred isOption := fun arg => inferInstanceAs (Decidable (arg.head? = some '-'))

/-- The loop over the arguments, with the options so far. -/
def arguments (files : Files) (fuel : Nat) (showheader : Bool) : Options → List Text → Ls Options
  | opts, [] => return opts
  | opts, arg :: rest => do
    if isOption arg then
      let opts ← ExceptT.mk (pure (arg.tail.foldlM option opts))
      arguments files fuel showheader opts rest
    else
      listitem files opts fuel arg showheader
      arguments files fuel showheader opts rest

/-- `main` for the arguments behind the name of the program. -/
def main (files : Files) (fuel : Nat) (argv : List Text) : Ls Unit := do
  let items := (argv.filter (¬isOption ·)).length
  let opts ← arguments files fuel (items > 1) ⟨false, false, false, false, false⟩ argv
  if items = 0 then
    listitem files opts fuel dot false

/-! ## What a tree says -/

/-- The name of an entry, what the system calls return for its path, and the entries of a
directory. -/
inductive Tree where
  | mk (name : Text) (opens : Bool) (stat : Option Stat) (entries : List Tree) (complete : Bool)

namespace Tree

def name : Tree → Text
  | mk name _ _ _ _ => name

def opens : Tree → Bool
  | mk _ opens _ _ _ => opens

def stat : Tree → Option Stat
  | mk _ _ stat _ _ => stat

def entries : Tree → List Tree
  | mk _ _ _ entries _ => entries

def complete : Tree → Bool
  | mk _ _ _ _ complete => complete

end Tree

mutual

/-- The levels of directories. -/
def level : Tree → Nat
  | .mk _ _ _ entries _ => levels entries + 1

def levels : List Tree → Nat
  | [] => 0
  | e :: rest => max (level e) (levels rest)

end

def IsDirectory (t : Tree) : Prop := t.stat.map Stat.type = some .directory

instance : DecidablePred IsDirectory := fun t =>
  inferInstanceAs (Decidable (t.stat.map Stat.type = some .directory))

/-- `open` and `fstat` return what the tree says. -/
structure Status (files : Files) (path : Text) (t : Tree) : Prop where
  opens : files.opens path = t.opens
  stat : files.fstat path = t.stat

/-- The system calls return for the paths below `path` what the tree says. Below `.` and `..` the
tree need not go on. -/
inductive Holds (files : Files) : Text → Tree → Prop
  | mk {path : Text} {t : Tree} (status : Status files path t)
      (names : IsDirectory t → files.names path = t.entries.map Tree.name)
      (complete : IsDirectory t → files.complete path = t.complete)
      (dots : ∀ e ∈ t.entries, e.name = dot ∨ e.name = dotdot →
        Status files (newpath path e.name) e)
      (entries : ∀ e ∈ t.entries, ¬(e.name = dot ∨ e.name = dotdot) →
        Holds files (newpath path e.name) e) : Holds files path t

/-- What is printed at once. -/
inductive Item where
  | header (path : Text)
  | line (text : Text)
  deriving DecidableEq

def put (io : Io) : Item → Io
  | .header path =>
    ⟨false, io.printed ++ (if io.first then [] else ['\n']) ++ (path ++ [':', '\n'])⟩
  | .line text => { io with printed := io.printed ++ text }

abbrev Output := Feed Stop Item

/-- A failure of `open` or `fstat`, or the output for the status. -/
def withStat (path : Text) (t : Tree) (output : Stat → Output) : Output :=
  if ¬t.opens then [.error (.exit 1 path)]
  else
    match t.stat with
    | none => [.error (.exit 1 (path ++ ": fstat".toList))]
    | some buf => output buf

def lineText (opts : Options) (statbuf : Stat) (path : Text) : Text :=
  (if opts.sopt then blocksText statbuf else []) ++ (if opts.lopt then longText statbuf else []) ++
    (basename path ++ ['\n'])

def printOutput (opts : Options) (path : Text) (t : Tree) : Output :=
  if opts.lopt ∨ opts.sopt then
    withStat path t fun statbuf => [.ok (.line (lineText opts statbuf path))]
  else [.ok (.line (basename path ++ ['\n']))]

/-- Names that begin with a dot are hidden without `-a`. -/
def Visible (opts : Options) (t : Tree) : Prop := opts.aopt ∨ t.name.head? ≠ some '.'

instance (opts : Options) : DecidablePred (Visible opts) := fun t =>
  inferInstanceAs (Decidable (opts.aopt ∨ t.name.head? ≠ some '.'))

def listOutput (opts : Options) (path : Text) (t : Tree) (showheader : Bool) : Output :=
  (if showheader then [.ok (.header path)] else []) ++
    ((if ¬t.opens then [.error (.exit 1 path)] else []) ++
      (t.entries.flatMap (fun e =>
        if Visible opts e then printOutput opts (newpath path e.name) e else []) ++
      if ¬t.complete then [.error (.exit 1 (path ++ ": getdirentry".toList))] else []))

mutual

/-- What `recursedir` prints for an entry: nothing unless it is a directory to go into. -/
def entryOutput (opts : Options) (path : Text) : Tree → Output
  | .mk name opens stat entries complete =>
    let e := Tree.mk name opens stat entries complete
    let child := newpath path name
    if Visible opts e ∧ name ≠ dot ∧ name ≠ dotdot then
      withStat child e fun buf =>
        if buf.type = .directory then
          listOutput opts child e true ++
            if opts.Ropt then
              (if ¬opens then [.error (.exit 1 child)] else []) ++
                (entriesOutput opts child entries ++
                  if ¬complete then [.error (.exit 1 child)] else [])
            else []
        else []
    else []

/-- The subdirectories in preorder. -/
def entriesOutput (opts : Options) (path : Text) : List Tree → Output
  | [] => []
  | e :: rest => entryOutput opts path e ++ entriesOutput opts path rest

end

/-- The output of `recursedir`. -/
def subdirsOutput (opts : Options) (path : Text) (t : Tree) : Output :=
  (if ¬t.opens then [.error (.exit 1 path)] else []) ++
    (entriesOutput opts path t.entries ++ if ¬t.complete then [.error (.exit 1 path)] else [])

def itemOutput (opts : Options) (path : Text) (t : Tree) (showheader : Bool) : Output :=
  if opts.dopt then printOutput opts path t
  else
    withStat path t fun buf =>
      if buf.type = .directory then
        listOutput opts path t (showheader || opts.Ropt) ++
          if opts.Ropt then subdirsOutput opts path t else []
      else printOutput opts path t

/-- The output for the arguments, and the options behind them. -/
def argumentsOutput (roots : Text → Tree) (showheader : Bool) :
    Options → List Text → Output × Options
  | opts, [] => ([], opts)
  | opts, arg :: rest =>
    if isOption arg then
      match arg.tail.foldlM option opts with
      | .error e => ([.error e], opts)
      | .ok opts => argumentsOutput roots showheader opts rest
    else
      let (output, last) := argumentsOutput roots showheader opts rest
      (itemOutput opts arg (roots arg) showheader ++ output, last)

def mainOutput (roots : Text → Tree) (argv : List Text) : Output :=
  let items := (argv.filter (¬isOption ·)).length
  let (output, opts) :=
    argumentsOutput roots (items > 1) ⟨false, false, false, false, false⟩ argv
  output ++ if items = 0 then itemOutput opts dot (roots dot) false else []

/-! ## `ls` prints what the tree says -/

section Outputs

variable {files : Files} {opts : Options} {path : Text} {t : Tree} {β : Type} {b : β}

theorem performs_printf (text : Text) : Performs put (printf text) [.ok (.line text)] () :=
  Performs.modify fun _ => rfl

theorem performs_err (message : Text) (b : β) :
    Performs put (err message : Ls β) [.error (.exit 1 message)] b := Performs.throw _ b

/-- Two texts in a row are one text. -/
theorem performs_texts {x : Ls Unit} {y : Unit → Ls Unit} {text text' : Text}
    (hx : Performs put x [.ok (.line text)] ()) (hy : Performs put (y ()) [.ok (.line text')] ()) :
    Performs put (x >>= y) [.ok (.line (text ++ text'))] () := by
  intro io
  rw [hx.bind hy io]
  simp [Feed.outcome, Feed.emitted, put]

/-- A text that is skipped unless `p` holds. -/
theorem performs_text_if {p : Prop} [Decidable p] {y : Unit → Ls Unit} {text text' : Text}
    (hy : Performs put (y ()) [.ok (.line text')] ()) :
    Performs put (if p then printf text >>= y else y ())
      [.ok (.line ((if p then text else []) ++ text'))] () := by
  by_cases h : p
  · rw [if_pos h, if_pos h]
    exact performs_texts (performs_printf text) hy
  · rw [if_neg h, if_neg h]
    exact hy

theorem Holds.status (h : Holds files path t) : Status files path t := by
  obtain ⟨hStatus, -, -, -, -⟩ := h
  exact hStatus

theorem performs_fstat (h : Status files path t) {y : Stat → Ls β} {output : Stat → Output}
    (hy : ∀ buf, t.stat = some buf → Performs put (y buf) (output buf) b) :
    Performs put (fstat files path >>= y) (withStat path t output) b := by
  unfold fstat withStat
  rw [h.opens, h.stat]
  by_cases hOpen : t.opens = true
  · rw [if_neg (not_not_intro hOpen), if_neg (not_not_intro hOpen)]
    cases hBuf : t.stat with
    | none => exact Performs.throw_bind _ y b
    | some buf => exact hy buf hBuf
  · rw [if_pos hOpen, if_pos hOpen]
    exact Performs.throw_bind _ y b

theorem performs_isdir (h : Status files path t) {x y : Ls β} {f g : Output}
    (hx : IsDirectory t → Performs put x f b) (hy : Performs put y g b) :
    Performs put (isdir files path >>= fun r => if r then x else y)
      (withStat path t fun buf => if buf.type = .directory then f else g) b := by
  unfold isdir
  rw [bind_assoc]
  refine performs_fstat h fun buf hBuf => ?_
  rw [pure_bind]
  by_cases hDir : buf.type = .directory
  · have hDirectory : IsDirectory t := by
      rw [IsDirectory, hBuf, Option.map_some, hDir]
    rw [if_pos (decide_eq_true hDir), if_pos hDir]
    exact hx hDirectory
  · rw [if_neg (by simpa using hDir), if_neg hDir]
    exact hy

theorem performs_printheader (file : Text) :
    Performs put (printheader file) [.ok (.header file)] () := by
  rintro ⟨first, printed⟩
  cases first with
  | true =>
    have hRun : printheader file ⟨true, printed⟩ =
        (.ok (), ⟨false, printed ++ (file ++ [':', '\n'])⟩) := rfl
    rw [hRun]
    simp [Feed.outcome, Feed.emitted, put, Except.map]
  | false =>
    have hRun : printheader file ⟨false, printed⟩ =
        (.ok (), ⟨false, printed ++ ['\n'] ++ (file ++ [':', '\n'])⟩) := rfl
    rw [hRun]
    rfl

theorem performs_print (h : Status files path t) :
    Performs put (print files opts path) (printOutput opts path t) () := by
  unfold print printOutput
  refine Performs.ite (fun _ => ?_) fun _ => performs_printf _
  refine performs_fstat h fun buf _ => ?_
  rw [lineText, List.append_assoc]
  exact performs_text_if (performs_text_if (performs_printf _))

theorem performs_listdir (h : Holds files path t) (hDirectory : IsDirectory t)
    (showheader : Bool) :
    Performs put (listdir files opts path showheader) (listOutput opts path t showheader) () := by
  obtain ⟨hStatus, hNames, hComplete, hDots, hEntries⟩ := h
  unfold listdir listOutput
  rw [hStatus.opens, hNames hDirectory, hComplete hDirectory]
  refine Performs.ite_bind (fun _ => performs_printheader path) ?_
  refine Performs.ite_bind (fun _ => performs_err _ ()) ?_
  refine Performs.bind (b := ()) ?_ ?_
  · refine Performs.forM_map fun e he => ?_
    have hEntry : Status files (newpath path e.name) e := by
      by_cases hDot : e.name = dot ∨ e.name = dotdot
      · exact hDots e he hDot
      · exact (hEntries e he hDot).status
    exact Performs.ite (fun _ => performs_print hEntry) fun _ => Performs.pure ()
  · exact Performs.ite (fun _ => performs_err _ ()) fun _ => Performs.pure ()

theorem entryOutput_eq (opts : Options) (path : Text) (e : Tree) :
    entryOutput opts path e =
      if Visible opts e ∧ e.name ≠ dot ∧ e.name ≠ dotdot then
        withStat (newpath path e.name) e fun buf =>
          if buf.type = .directory then
            listOutput opts (newpath path e.name) e true ++
              if opts.Ropt then subdirsOutput opts (newpath path e.name) e else []
          else []
      else [] := by
  cases e
  rfl

theorem entriesOutput_eq (opts : Options) (path : Text) (ts : List Tree) :
    entriesOutput opts path ts = ts.flatMap (entryOutput opts path) := by
  induction ts with
  | nil => rfl
  | cons e ts ih => rw [entriesOutput, List.flatMap_cons, ih]

theorem levels_lt_of_mem {e : Tree} {ts : List Tree} (h : e ∈ ts) :
    levels e.entries < levels ts := by
  have hLevel : levels e.entries < level e := by
    cases e
    exact Nat.lt_succ_self _
  induction ts with
  | nil => cases h
  | cons e' ts ih =>
    rw [levels]
    rcases List.mem_cons.mp h with rfl | h
    · exact Nat.lt_of_lt_of_le hLevel (Nat.le_max_left ..)
    · exact Nat.lt_of_lt_of_le (ih h) (Nat.le_max_right ..)

/-- With more fuel than levels, `recursedir` prints the subdirectories. -/
theorem performs_recursedir {fuel : Nat} (h : Holds files path t) (hDirectory : IsDirectory t)
    (hFuel : levels t.entries < fuel) :
    Performs put (recursedir files opts fuel path) (subdirsOutput opts path t) () := by
  induction fuel generalizing path t with
  | zero => exact absurd hFuel (Nat.not_lt_zero _)
  | succ fuel ih =>
    obtain ⟨hStatus, hNames, hComplete, -, hEntries⟩ := h
    rw [recursedir, subdirsOutput, hStatus.opens, hNames hDirectory, hComplete hDirectory,
      entriesOutput_eq]
    refine Performs.ite_bind (fun _ => performs_err _ ()) ?_
    refine Performs.bind (b := ()) (Performs.forM_map fun e he => ?_) ?_
    · have hLevels : levels e.entries < fuel :=
        Nat.lt_of_lt_of_le (levels_lt_of_mem he) (Nat.le_of_lt_succ hFuel)
      rw [entryOutput_eq]
      by_cases hHidden : ¬opts.aopt ∧ e.name.head? = some '.'
      · have hNot : ¬Visible opts e := by
          rintro (hAll | hShown)
          · exact hHidden.1 hAll
          · exact hShown hHidden.2
        rw [if_pos hHidden, if_neg fun hGo => hNot hGo.1]
        exact Performs.pure ()
      have hVisible : Visible opts e := by
        by_cases hAll : opts.aopt = true
        · exact Or.inl hAll
        · exact Or.inr fun hDot => hHidden ⟨hAll, hDot⟩
      rw [if_neg hHidden]
      by_cases hDots : e.name = dot ∨ e.name = dotdot
      · rw [if_pos hDots, if_neg fun hGo => hDots.elim hGo.2.1 hGo.2.2]
        exact Performs.pure ()
      · have hGo : Visible opts e ∧ e.name ≠ dot ∧ e.name ≠ dotdot := ⟨hVisible, not_or.mp hDots⟩
        rw [if_neg hDots, if_pos hGo]
        have hEntry := hEntries e he hDots
        refine performs_isdir hEntry.status (fun hDir => ?_) (Performs.pure ())
        refine (performs_listdir hEntry hDir true).bind ?_
        exact Performs.ite (fun _ => ih hEntry hDir hLevels) fun _ => Performs.pure ()
    · exact Performs.ite (fun _ => performs_err _ ()) fun _ => Performs.pure ()

theorem performs_listitem {fuel : Nat} (h : Holds files path t) (showheader : Bool)
    (hFuel : levels t.entries < fuel) :
    Performs put (listitem files opts fuel path showheader) (itemOutput opts path t showheader)
      () := by
  unfold listitem itemOutput
  refine Performs.ite (fun _ => performs_print h.status) fun _ => ?_
  refine performs_isdir h.status (fun hDir => ?_) (performs_print h.status)
  refine (performs_listdir h hDir _).bind ?_
  exact Performs.ite (fun _ => performs_recursedir h hDir hFuel) fun _ => Performs.pure ()

theorem performs_arguments {fuel : Nat} {roots : Text → Tree} {argv : List Text}
    (hRoots : ∀ arg ∈ argv, ¬isOption arg → Holds files arg (roots arg))
    (hFuel : ∀ arg ∈ argv, ¬isOption arg → levels (roots arg).entries < fuel) (showheader : Bool) :
    Performs put (arguments files fuel showheader opts argv)
      (argumentsOutput roots showheader opts argv).1
      (argumentsOutput roots showheader opts argv).2 := by
  induction argv generalizing opts with
  | nil => exact Performs.pure opts
  | cons arg rest ih =>
    have hRest : ∀ opts, Performs put (arguments files fuel showheader opts rest)
        (argumentsOutput roots showheader opts rest).1
        (argumentsOutput roots showheader opts rest).2 := fun _ =>
      ih (fun a ha => hRoots a (List.mem_cons_of_mem _ ha))
        fun a ha => hFuel a (List.mem_cons_of_mem _ ha)
    rw [arguments, argumentsOutput]
    by_cases hOption : isOption arg
    · rw [if_pos hOption, if_pos hOption]
      cases hFold : arg.tail.foldlM option opts with
      | error e => exact Performs.throw_bind e _ _
      | ok opts' => exact hRest opts'
    · rw [if_neg hOption, if_neg hOption]
      exact (performs_listitem (hRoots arg List.mem_cons_self hOption) showheader
        (hFuel arg List.mem_cons_self hOption)).bind (hRest opts)

/-- The paths that are listed: the arguments that are no options, or the current directory. -/
def listed (argv : List Text) : List Text :=
  match argv.filter (¬isOption ·) with
  | [] => [dot]
  | items => items

/-- **`ls`.** Whatever the arguments are, and whatever the system calls return for the paths below
them, `ls` prints the output of the trees up to the first failure, and ends with it. -/
theorem ls_prints (files : Files) (roots : Text → Tree) (fuel : Nat) (argv : List Text)
    (hRoots : ∀ path ∈ listed argv, Holds files path (roots path))
    (hFuel : ∀ path ∈ listed argv, levels (roots path).entries < fuel) (io : Io) :
    main files fuel argv io =
      ((mainOutput roots argv).outcome, (mainOutput roots argv).emitted.foldl put io) := by
  have hItems : ∀ arg ∈ argv, ¬isOption arg → arg ∈ listed argv := by
    intro arg hMem hArg
    have hItem : arg ∈ argv.filter (¬isOption ·) :=
      List.mem_filter.mpr ⟨hMem, decide_eq_true hArg⟩
    unfold listed
    generalize argv.filter (¬isOption ·) = items at hItem
    cases items with
    | nil => exact absurd hItem List.not_mem_nil
    | cons first items => exact hItem
  have hNone : (argv.filter (¬isOption ·)).length = 0 → dot ∈ listed argv := by
    intro hLength
    unfold listed
    rw [List.length_eq_zero_iff.mp hLength]
    exact List.mem_singleton_self dot
  have hMain : Performs put (main files fuel argv) (mainOutput roots argv) () := by
    refine (performs_arguments (fun arg hMem hArg => hRoots arg (hItems arg hMem hArg))
      (fun arg hMem hArg => hFuel arg (hItems arg hMem hArg)) _).bind ?_
    exact Performs.ite (fun hZero => performs_listitem (hRoots dot (hNone hZero)) false
      (hFuel dot (hNone hZero))) fun _ => Performs.pure ()
  rw [hMain io]
  cases (mainOutput roots argv).outcome with
  | error e => rfl
  | ok u => rfl

end Outputs

/-! ## A directory with itself, a file and a subdirectory -/

def sampleFile (name : Text) : Tree := .mk name true (some ⟨.regular, 1, 5, 1⟩) [] true

def sampleSubdir : Tree := .mk ['b'] true (some ⟨.directory, 2, 0, 1⟩) [sampleFile ['c']] true

def sampleDot : Tree := .mk dot true (some ⟨.directory, 3, 0, 1⟩) [] true

def sampleDir : Tree :=
  .mk ['r'] true (some ⟨.directory, 3, 0, 1⟩) [sampleDot, sampleFile ['a'], sampleSubdir] true

def samplePaths : List (Text × Tree) := [
  ("r".toList, sampleDir), ("r/.".toList, sampleDot), ("r/a".toList, sampleFile ['a']),
  ("r/b".toList, sampleSubdir), ("r/b/c".toList, sampleFile ['c'])]

def sampleFiles : Files where
  opens path := (samplePaths.lookup path).any Tree.opens
  fstat path := (samplePaths.lookup path).bind Tree.stat
  names path := (samplePaths.lookup path).elim [] fun t => t.entries.map Tree.name
  complete path := (samplePaths.lookup path).all Tree.complete

theorem holds_sampleFile {path name : Text} (h : Status sampleFiles path (sampleFile name)) :
    Holds sampleFiles path (sampleFile name) :=
  .mk h nofun nofun nofun nofun

theorem holds_sampleDir : Holds sampleFiles "r".toList sampleDir := by
  have hFile : Holds sampleFiles "r/a".toList (sampleFile ['a']) := holds_sampleFile ⟨rfl, rfl⟩
  have hInner : Holds sampleFiles "r/b/c".toList (sampleFile ['c']) := holds_sampleFile ⟨rfl, rfl⟩
  have hSubdir : Holds sampleFiles "r/b".toList sampleSubdir := by
    refine .mk ⟨rfl, rfl⟩ (fun _ => rfl) (fun _ => rfl) ?_ ?_
    · exact List.forall_mem_singleton.mpr fun _ => ⟨rfl, rfl⟩
    · exact List.forall_mem_singleton.mpr fun _ => hInner
  refine .mk ⟨rfl, rfl⟩ (fun _ => rfl) (fun _ => rfl) ?_ ?_
  · exact List.forall_mem_cons.mpr ⟨fun _ => ⟨rfl, rfl⟩, List.forall_mem_cons.mpr
      ⟨fun _ => ⟨rfl, rfl⟩, List.forall_mem_singleton.mpr fun _ => ⟨rfl, rfl⟩⟩⟩
  · exact List.forall_mem_cons.mpr ⟨fun hNot => absurd (Or.inl rfl) hNot, List.forall_mem_cons.mpr
      ⟨fun _ => hFile, List.forall_mem_singleton.mpr fun _ => hSubdir⟩⟩

theorem ls_prints_sample : main sampleFiles 3 ["-R".toList, "r".toList] ⟨true, []⟩ =
    (.ok (), ⟨false, "r:\na\nb\n\nr/b:\nc\n".toList⟩) := by
  have hPrints := ls_prints sampleFiles (fun _ => sampleDir) 3 ["-R".toList, "r".toList]
    (List.forall_mem_singleton.mpr holds_sampleDir) (by decide) ⟨true, []⟩
  exact hPrints

/-! ## Every directory once -/

/-- An entry that `recursedir` goes into. -/
def Enters (opts : Options) (e : Tree) : Prop :=
  (Visible opts e ∧ e.name ≠ dot ∧ e.name ≠ dotdot) ∧ IsDirectory e

instance (opts : Options) : DecidablePred (Enters opts) := fun _ =>
  inferInstanceAs (Decidable (_ ∧ _))

/-- The directory `d` is at the path `p` below `path`, where the tree is `t`. -/
inductive Below (opts : Options) : Text → Tree → Text → Tree → Prop
  | child {path : Text} {t e : Tree} (he : e ∈ t.entries) (hEnters : Enters opts e) :
      Below opts path t (newpath path e.name) e
  | deeper {path p : Text} {t e d : Tree} (he : e ∈ t.entries) (hEnters : Enters opts e)
      (hBelow : Below opts (newpath path e.name) e p d) : Below opts path t p d

/-- No call fails, the names in a directory are different and without slashes, and all paths fit
into the buffer. -/
inductive Sound : Text → Tree → Prop
  | mk {path : Text} {t : Tree} {buf : Stat} (opens : t.opens = true) (stat : t.stat = some buf)
      (complete : t.complete = true) (names : (t.entries.map Tree.name).Nodup)
      (slashes : ∀ e ∈ t.entries, '/' ∉ e.name)
      (fits : ∀ e ∈ t.entries, path.length + 1 + e.name.length ≤ 1023)
      (entries : ∀ e ∈ t.entries, Sound (newpath path e.name) e) : Sound path t

mutual

/-- The directories that `recursedir` lists for an entry, with their paths. -/
def entryDirs (opts : Options) (path : Text) : Tree → List (Text × Tree)
  | .mk name opens stat entries complete =>
    if Enters opts (.mk name opens stat entries complete) then
      (newpath path name, .mk name opens stat entries complete) ::
        entriesDirs opts (newpath path name) entries
    else []

def entriesDirs (opts : Options) (path : Text) : List Tree → List (Text × Tree)
  | [] => []
  | e :: rest => entryDirs opts path e ++ entriesDirs opts path rest

end

/-- The line of an entry. -/
def entryLine (opts : Options) (e : Tree) : Text :=
  (e.stat.elim [] fun buf => (if opts.sopt then blocksText buf else []) ++
    if opts.lopt then longText buf else []) ++ (e.name ++ ['\n'])

/-- The lines of the visible entries of a directory. -/
def entryLines (opts : Options) (t : Tree) : List Item :=
  (t.entries.filter (Visible opts ·)).map fun e => .line (entryLine opts e)

/-- A directory with its header. -/
def listing (opts : Options) (d : Text × Tree) : List Item :=
  .header d.1 :: entryLines opts d.2

section Once

variable {opts : Options} {path p : Text} {t e d : Tree}

theorem entryDirs_eq (opts : Options) (path : Text) (e : Tree) :
    entryDirs opts path e =
      if Enters opts e then
        (newpath path e.name, e) :: entriesDirs opts (newpath path e.name) e.entries
      else [] := by
  cases e
  rfl

theorem entriesDirs_eq (opts : Options) (path : Text) (ts : List Tree) :
    entriesDirs opts path ts = ts.flatMap (entryDirs opts path) := by
  induction ts with
  | nil => rfl
  | cons e ts ih => rw [entriesDirs, List.flatMap_cons, ih]

theorem newpath_of_fits {buf : Text} (h : path.length + 1 + buf.length ≤ 1023) :
    newpath path buf = path ++ '/' :: buf := by
  apply List.take_of_length_le
  rw [List.length_append, List.length_cons]
  omega

/-- The name of an entry is what `basename` finds. -/
theorem basename_newpath {buf : Text} (hSlash : '/' ∉ buf)
    (h : path.length + 1 + buf.length ≤ 1023) : basename (newpath path buf) = buf := by
  rw [newpath_of_fits h, basename, List.reverse_append, List.reverse_cons, List.append_assoc]
  rw [List.takeWhile_append_of_pos]
  · simp
  · intro c hc
    have hNot : c ≠ '/' := fun hEq => hSlash (hEq ▸ List.mem_reverse.mp hc)
    simpa using hNot

theorem withStat_of_sound (h : Sound path t) (p : Text) (output : Stat → Output) :
    ∃ buf, t.stat = some buf ∧ withStat p t output = output buf := by
  obtain ⟨hOpens, hStat, -, -, -, -, -⟩ := h
  refine ⟨_, hStat, ?_⟩
  unfold withStat
  rw [hOpens, hStat, if_neg (not_not_intro rfl)]

theorem printOutput_of_sound (h : Sound (newpath path e.name) e) (hSlash : '/' ∉ e.name)
    (hFits : path.length + 1 + e.name.length ≤ 1023) :
    printOutput opts (newpath path e.name) e = [.ok (.line (entryLine opts e))] := by
  obtain ⟨buf, hStat, hOutput⟩ := withStat_of_sound h (newpath path e.name)
    fun statbuf => [.ok (.line (lineText opts statbuf (newpath path e.name)))]
  unfold printOutput
  rw [hOutput]
  unfold lineText entryLine
  rw [basename_newpath hSlash hFits, hStat]
  by_cases hFlags : opts.lopt ∨ opts.sopt
  · rw [if_pos hFlags]
    rfl
  · rw [if_neg hFlags]
    rw [not_or] at hFlags
    simp [hFlags.1, hFlags.2]

theorem flatMap_filter {α β : Type} {p : α → Prop} [DecidablePred p] {f : α → List β} {g : α → β}
    {xs : List α} (h : ∀ x ∈ xs, f x = [g x]) :
    (xs.flatMap fun x => if p x then f x else []) = (xs.filter (p ·)).map g := by
  induction xs with
  | nil => rfl
  | cons x xs ih =>
    have hRest := ih fun y hy => h y (List.mem_cons_of_mem _ hy)
    rw [List.flatMap_cons, hRest]
    by_cases hKeep : p x
    · rw [if_pos hKeep, h x List.mem_cons_self,
        List.filter_cons_of_pos (p := (p ·)) (decide_eq_true hKeep)]
      rfl
    · rw [if_neg hKeep, List.filter_cons_of_neg (p := (p ·)) (by simpa using hKeep)]
      rfl

theorem listOutput_of_sound (h : Sound path t) (showheader : Bool) :
    listOutput opts path t showheader =
      ((if showheader then [Item.header path] else []) ++ entryLines opts t).map .ok := by
  obtain ⟨hOpens, -, hComplete, -, hSlashes, hFits, hEntries⟩ := h
  have hLines : (t.entries.flatMap fun e =>
      if Visible opts e then printOutput opts (newpath path e.name) e else []) =
      (t.entries.filter (Visible opts ·)).map fun e => .ok (.line (entryLine opts e)) :=
    flatMap_filter fun e he => printOutput_of_sound (hEntries e he) (hSlashes e he) (hFits e he)
  unfold listOutput entryLines
  rw [hOpens, hComplete, hLines, if_neg (not_not_intro rfl), if_neg (not_not_intro rfl),
    List.nil_append, List.append_nil, List.map_append, List.map_map]
  cases showheader with
  | true => rfl
  | false => rfl

theorem listOutput_header (h : Sound path t) :
    listOutput opts path t true = (listing opts (path, t)).map .ok := listOutput_of_sound h true

/-- Without a failure `recursedir` prints the directories that it enters. -/
theorem entriesOutput_of_sound (hRecurse : opts.Ropt = true) (h : Sound path t) :
    entriesOutput opts path t.entries =
      ((entriesDirs opts path t.entries).flatMap (listing opts)).map .ok := by
  induction h with
  | @mk path t buf hOpens hStat hComplete hNames hSlashes hFits hEntries ih =>
    rw [entriesOutput_eq, entriesDirs_eq, List.flatMap_assoc, List.map_flatMap]
    apply List.flatMap_congr
    intro e he
    have hSound := hEntries e he
    rw [entryOutput_eq, entryDirs_eq]
    by_cases hGo : Visible opts e ∧ e.name ≠ dot ∧ e.name ≠ dotdot
    · rw [if_pos hGo]
      obtain ⟨buf, hBuf, hOutput⟩ := withStat_of_sound hSound (newpath path e.name) _
      rw [hOutput]
      by_cases hDir : buf.type = .directory
      · have hEnters : Enters opts e :=
          ⟨hGo, by rw [IsDirectory, hBuf, Option.map_some, hDir]⟩
        obtain ⟨hOpens', -, hComplete', -, -, -, -⟩ := hSound
        rw [if_pos hDir, if_pos hRecurse, if_pos hEnters, listOutput_header (hEntries e he),
          subdirsOutput, hOpens', hComplete', ih e he, if_neg (not_not_intro rfl),
          List.nil_append, List.append_nil, List.flatMap_cons, List.map_append]
      · have hNot : ¬Enters opts e := by
          rintro ⟨-, hType⟩
          rw [IsDirectory, hBuf, Option.map_some] at hType
          exact hDir (Option.some.inj hType)
        rw [if_neg hDir, if_neg hNot]
        rfl
    · rw [if_neg hGo, if_neg fun hEnters => hGo hEnters.1]
      rfl

/-- The directories that are listed are those below. -/
theorem mem_entriesDirs_iff :
    (p, d) ∈ entriesDirs opts path t.entries ↔ Below opts path t p d := by
  constructor
  · intro hMem
    induction hLevels : levels t.entries using Nat.strongRecOn generalizing path t with
    | _ n ih =>
      rw [entriesDirs_eq] at hMem
      obtain ⟨e, he, hMem⟩ := List.mem_flatMap.mp hMem
      rw [entryDirs_eq] at hMem
      by_cases hEnters : Enters opts e
      · rw [if_pos hEnters] at hMem
        rcases List.mem_cons.mp hMem with hHere | hDeeper
        · cases hHere
          exact .child he hEnters
        · have hLess : levels e.entries < n := hLevels ▸ levels_lt_of_mem he
          exact .deeper he hEnters (ih _ hLess hDeeper rfl)
      · rw [if_neg hEnters] at hMem
        cases hMem
  · intro hBelow
    induction hBelow with
    | child he hEnters =>
      rw [entriesDirs_eq]
      refine List.mem_flatMap.mpr ⟨_, he, ?_⟩
      rw [entryDirs_eq, if_pos hEnters]
      exact List.mem_cons_self
    | deeper he hEnters _ ih =>
      rw [entriesDirs_eq]
      refine List.mem_flatMap.mpr ⟨_, he, ?_⟩
      rw [entryDirs_eq, if_pos hEnters]
      exact List.mem_cons_of_mem _ ih

/-- The paths that are listed for an entry begin with its own. -/
theorem path_of_mem_entryDirs (opts : Options) (h : Sound path t) : ∀ e ∈ t.entries, ∀ p d,
    (p, d) ∈ entryDirs opts path e →
      ∃ rest, p = path ++ '/' :: (e.name ++ rest) ∧ ∀ c ∈ rest.head?, c = '/' := by
  induction h with
  | @mk path t buf hOpens hStat hComplete hNames hSlashes hFits hEntries ih =>
    intro e he p d hMem
    rw [entryDirs_eq] at hMem
    by_cases hEnters : Enters opts e
    · rw [if_pos hEnters, newpath_of_fits (hFits e he)] at hMem
      rcases List.mem_cons.mp hMem with hHere | hDeeper
      · cases hHere
        exact ⟨[], by rw [List.append_nil], nofun⟩
      · rw [entriesDirs_eq, ← newpath_of_fits (hFits e he)] at hDeeper
        obtain ⟨e', he', hMem'⟩ := List.mem_flatMap.mp hDeeper
        obtain ⟨rest, hPath, -⟩ := ih e he e' he' p d hMem'
        refine ⟨'/' :: (e'.name ++ rest), ?_, fun c hc => (Option.some.inj hc).symm⟩
        rw [hPath, newpath_of_fits (hFits e he), List.append_assoc]
        rfl
    · rw [if_neg hEnters] at hMem
      cases hMem

theorem ne_path_of_mem (h : Sound path t) (hMem : (p, d) ∈ entriesDirs opts path t.entries) :
    p ≠ path := by
  intro hEq
  rw [entriesDirs_eq] at hMem
  obtain ⟨e, he, hMem'⟩ := List.mem_flatMap.mp hMem
  obtain ⟨rest, hPath, -⟩ := path_of_mem_entryDirs opts h e he p d hMem'
  have hLength := congrArg List.length (hPath.symm.trans hEq)
  rw [List.length_append, List.length_cons] at hLength
  omega

/-- The first name of a path. -/
theorem takeWhile_name {name rest : Text} (hSlash : '/' ∉ name)
    (hRest : ∀ c ∈ rest.head?, c = '/') :
    (name ++ rest).takeWhile (· ≠ '/') = name := by
  rw [List.takeWhile_append_of_pos]
  · cases rest with
    | nil => exact List.append_nil name
    | cons c rest =>
      rw [hRest c rfl, List.takeWhile_cons_of_neg (by simp), List.append_nil]
  · intro c hc
    have hNot : c ≠ '/' := fun hEq => hSlash (hEq ▸ hc)
    simpa using hNot

/-- No directory is listed twice. -/
theorem nodup_entriesDirs (h : Sound path t) :
    ((entriesDirs opts path t.entries).map Prod.fst).Nodup := by
  induction h with
  | @mk path t buf hOpens hStat hComplete hNames hSlashes hFits hEntries ih =>
    have hPaths := path_of_mem_entryDirs opts
      (.mk hOpens hStat hComplete hNames hSlashes hFits hEntries)
    rw [entriesDirs_eq, List.map_flatMap, List.nodup_flatMap]
    constructor
    · intro e he
      rw [entryDirs_eq]
      by_cases hEnters : Enters opts e
      · rw [if_pos hEnters, List.map_cons, List.nodup_cons]
        refine ⟨fun hMem => ?_, ih e he⟩
        obtain ⟨⟨p, d⟩, hMem', hEq⟩ := List.mem_map.mp hMem
        exact ne_path_of_mem (hEntries e he) hMem' hEq
      · rw [if_neg hEnters]
        exact List.nodup_nil
    · refine (List.pairwise_map.mp hNames).imp_of_mem ?_
      intro e e' he he' hNe
      refine List.disjoint_left.mpr fun p hMem hMem' => hNe ?_
      obtain ⟨⟨q, d⟩, hDir, rfl⟩ := List.mem_map.mp hMem
      obtain ⟨⟨q', d'⟩, hDir', hEq⟩ := List.mem_map.mp hMem'
      obtain ⟨rest, hPath, hRest⟩ := hPaths e he q d hDir
      obtain ⟨rest', hPath', hRest'⟩ := hPaths e' he' q' d' hDir'
      have hTails : e.name ++ rest = e'.name ++ rest' := by
        have hBoth := hPath.symm.trans (hEq.symm.trans hPath')
        exact List.tail_eq_of_cons_eq (List.append_cancel_left hBoth)
      rw [← takeWhile_name (hSlashes e he) hRest, hTails, takeWhile_name (hSlashes e' he') hRest']

end Once

theorem listitem_lists_once {files : Files} {opts : Options} {fuel : Nat} {path : Text} {t : Tree}
    (hHolds : Holds files path t) (hSound : Sound path t)
    (hDirectory : IsDirectory t) (hRecurse : opts.Ropt = true)
    (hItself : opts.dopt = false) (hFuel : levels t.entries < fuel) (io : Io) :
    ∃ dirs : List (Text × Tree), (dirs.map Prod.fst).Nodup ∧
      (∀ p d, (p, d) ∈ dirs ↔ (p, d) = (path, t) ∨ Below opts path t p d) ∧
      listitem files opts fuel path false io =
        (.ok (), (dirs.flatMap (listing opts)).foldl put io) := by
  obtain ⟨buf, hBuf, hOutput⟩ := withStat_of_sound hSound path fun buf =>
    if buf.type = .directory then
      listOutput opts path t true ++ if opts.Ropt then subdirsOutput opts path t else []
    else printOutput opts path t
  have hType : buf.type = .directory := by
    rw [IsDirectory, hBuf, Option.map_some] at hDirectory
    exact Option.some.inj hDirectory
  obtain ⟨hOpens, -, hComplete, -, -, -, -⟩ := id hSound
  have hItem : itemOutput opts path t false =
      (((path, t) :: entriesDirs opts path t.entries).flatMap (listing opts)).map .ok := by
    unfold itemOutput
    rw [hItself, if_neg Bool.false_ne_true, Bool.false_or, hRecurse]
    rw [hRecurse] at hOutput
    rw [hOutput, if_pos hType, if_pos rfl, listOutput_header hSound, subdirsOutput, hOpens,
      hComplete, entriesOutput_of_sound hRecurse hSound, if_neg (not_not_intro rfl),
      List.nil_append, List.append_nil, List.flatMap_cons, List.map_append]
  refine ⟨(path, t) :: entriesDirs opts path t.entries, ?_, fun p d => ?_, ?_⟩
  · refine List.nodup_cons.mpr ⟨fun hMem => ?_, nodup_entriesDirs hSound⟩
    obtain ⟨⟨p, d⟩, hMem', hEq⟩ := List.mem_map.mp hMem
    exact ne_path_of_mem hSound hMem' hEq
  · rw [List.mem_cons, mem_entriesDirs_iff]
  · have hPerforms : Performs put (listitem files opts fuel path false) _ () :=
      performs_listitem hHolds false hFuel
    rw [hPerforms io, hItem, Feed.outcome_map_ok, Feed.emitted_map_ok]
    rfl

theorem bind_of_ok {α β : Type} {x : Ls α} {a : α} {io io' : Io} (h : x io = (.ok a, io'))
    (y : α → Ls β) : (x >>= y) io = y a io' := by
  change ExceptT.bindCont y (x io).1 (x io).2 = _
  rw [h]
  rfl

/-- Words of options are processed before the paths behind them. -/
theorem arguments_words {files : Files} {fuel : Nat} {showheader : Bool} {words rest : List Text}
    {opts opts' : Options} (hWords : ∀ word ∈ words, isOption word)
    (hOptions : words.foldlM (fun opts word => word.tail.foldlM option opts) opts = .ok opts') :
    arguments files fuel showheader opts (words ++ rest) =
      arguments files fuel showheader opts' rest := by
  induction words generalizing opts with
  | nil =>
    cases hOptions
    rfl
  | cons word words ih =>
    rw [List.foldlM_cons] at hOptions
    obtain ⟨opts₁, hFirst, hOthers⟩ := bind_eq_ok.mp hOptions
    rw [List.cons_append, arguments, if_pos (hWords word List.mem_cons_self), hFirst]
    exact ih (fun w hw => hWords w (List.mem_cons_of_mem _ hw)) hOthers

/-- **`ls -R`.** When no call fails, a directory and the directories below it are each listed once,
under a header with its path and with a line for each visible entry. -/
theorem ls_lists_once {files : Files} {opts : Options} {fuel : Nat} {words : List Text}
    {path : Text} {t : Tree} (hWords : ∀ word ∈ words, isOption word)
    (hOptions : words.foldlM (fun opts word => word.tail.foldlM option opts)
      ⟨false, false, false, false, false⟩ = .ok opts)
    (hRecurse : opts.Ropt = true) (hItself : opts.dopt = false) (hPath : ¬isOption path)
    (hHolds : Holds files path t) (hSound : Sound path t)
    (hDirectory : IsDirectory t) (hFuel : levels t.entries < fuel)
    (io : Io) :
    ∃ dirs : List (Text × Tree), (dirs.map Prod.fst).Nodup ∧
      (∀ p d, (p, d) ∈ dirs ↔ (p, d) = (path, t) ∨ Below opts path t p d) ∧
      main files fuel (words ++ [path]) io =
        (.ok (), (dirs.flatMap (listing opts)).foldl put io) := by
  obtain ⟨dirs, hNodup, hDirs, hRun⟩ :=
    listitem_lists_once hHolds hSound hDirectory hRecurse hItself hFuel io
  refine ⟨dirs, hNodup, hDirs, ?_⟩
  have hItems : (words ++ [path]).filter (¬isOption ·) = [path] := by
    rw [List.filter_append, List.filter_eq_nil_iff.mpr, List.nil_append, List.filter_eq_self.mpr]
    · exact List.forall_mem_singleton.mpr (decide_eq_true hPath)
    · intro word hWord
      simpa using hWords word hWord
  unfold main
  rw [hItems, arguments_words hWords hOptions, arguments, if_neg hPath, bind_assoc]
  exact bind_of_ok hRun _

theorem sound_sampleDir : Sound "r".toList sampleDir := by
  have hDot : Sound "r/.".toList sampleDot := .mk rfl rfl rfl List.nodup_nil nofun nofun nofun
  have hFile : Sound "r/a".toList (sampleFile ['a']) :=
    .mk rfl rfl rfl List.nodup_nil nofun nofun nofun
  have hInner : Sound "r/b/c".toList (sampleFile ['c']) :=
    .mk rfl rfl rfl List.nodup_nil nofun nofun nofun
  have hSubdir : Sound "r/b".toList sampleSubdir :=
    .mk rfl rfl rfl (by decide) (by decide) (by decide) (List.forall_mem_singleton.mpr hInner)
  exact .mk rfl rfl rfl (by decide) (by decide) (by decide) (List.forall_mem_cons.mpr
    ⟨hDot, List.forall_mem_cons.mpr ⟨hFile, List.forall_mem_singleton.mpr hSubdir⟩⟩)

theorem ls_lists_once_sample : ∃ dirs : List (Text × Tree), (dirs.map Prod.fst).Nodup ∧
    (∀ p d, (p, d) ∈ dirs ↔ (p, d) = ("r".toList, sampleDir) ∨
      Below ⟨false, false, false, true, false⟩ "r".toList sampleDir p d) ∧
    main sampleFiles 3 ["-R".toList, "r".toList] ⟨true, []⟩ =
      (.ok (), (dirs.flatMap (listing ⟨false, false, false, true, false⟩)).foldl put
        ⟨true, []⟩) := by
  have hWords : ∀ word ∈ ["-R".toList], isOption word := by
    decide
  exact ls_lists_once hWords rfl rfl rfl (by decide) holds_sampleDir sound_sampleDir rfl (by decide)
    ⟨true, []⟩

end Windborne.OS161.ListFiles
