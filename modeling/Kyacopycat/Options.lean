import Kyacopycat.Machine
import Kyacopycat.Lib.Stdio

/-!
The command line: the option loop of `main`.

The loop is modelled on `argv` from `rom_file` on, as the list of the arguments that are
left; the end of the list is the terminating `NULL`. A turn of the loop (`optionTurn`) looks
at one argument and the one after it, and takes one or both. Options with a number take it
from the next argument or from behind their letter, options with a file from the next
argument.

* `parseOptions_spares`: the option loop leaves the bytes of every existing file as they
  are, except of those that `-o` opens.
-/

namespace Kyacopycat

open Stdio

/-- A C string: its bytes, without the terminator. -/
abbrev CString := List UInt8

/-! ### Characters and numbers -/

def isalpha (c : UInt8) : Bool := (0x41 ≤ c && c ≤ 0x5A) || (0x61 ≤ c && c ≤ 0x7A)

def isspace (c : UInt8) : Bool := c == 0x20 || (0x09 ≤ c && c ≤ 0x0D)

/-- The value of a character as a digit of a base up to 36. -/
def digitValue (c : UInt8) : Option Nat :=
  if 0x30 ≤ c ∧ c ≤ 0x39 then some (c.toNat - 0x30)
  else if 0x41 ≤ c ∧ c ≤ 0x5A then some (c.toNat - 0x41 + 10)
  else if 0x61 ≤ c ∧ c ≤ 0x7A then some (c.toNat - 0x61 + 10)
  else none

/-- Continue a number with the digits at the start of a string. -/
def readDigits (base : Nat) : Nat → CString → Nat
  | value, [] => value
  | value, c :: rest =>
    match digitValue c with
    | some d => if d < base then readDigits base (value * base + d) rest else value
    | none => value

/-- A number in the base that its prefix says: `0x` for 16, `0` for 8. -/
def readPrefixed : CString → Nat
  | 0x30 :: x :: d :: rest =>
    if (x = 'x'.toUInt8 ∨ x = 'X'.toUInt8) ∧ (digitValue d).any (· < 16) then
      readDigits 16 0 (d :: rest)
    else readDigits 8 0 (x :: d :: rest)
  | 0x30 :: rest => readDigits 8 0 rest
  | s => readDigits 10 0 s

/-- `strtol(s, NULL, base)`, with a `long` of 64 bits. -/
def strtol (s : CString) (base : Nat) : Int :=
  let s := s.dropWhile isspace
  let negative := s.head? = some '-'.toUInt8
  let s := if negative ∨ s.head? = some '+'.toUInt8 then s.tail else s
  let magnitude : Int := if base = 0 then readPrefixed s else readDigits base 0 s
  let value := if negative then -magnitude else magnitude
  if value < -0x8000000000000000 then -0x8000000000000000
  else if 0x7FFFFFFFFFFFFFFF < value then 0x7FFFFFFFFFFFFFFF
  else value

/-- `atoi`: the `long` as an `int`. -/
def atoi (s : CString) : Int := (strtol s 10).bmod 0x100000000

/-! ### State -/

/-- What the program uses of the system: its files, and the floating point numbers `D` that
`strtod` makes. -/
structure System (D Path : Type) extends Host Path where
  /-- The file that a name names. -/
  locate : CString → Path
  strtod : CString → D
  one : D
  /-- The comparison with `0.0`. -/
  isZero : D → Bool

/-- The settings, with the name of the file for each stream that is open. -/
structure Settings (D : Type) where
  scale : UInt8
  remap : UInt8
  speed : D
  dip : UInt8
  translate : UInt8
  printerF : Option CString
  serialFr : Option CString
  serialFw : Option CString
  svromF : Option CString
  svramF : Option CString
  ramF : Option CString

/-- The option loop between two turns. `truncated` are the files that `-o` has opened. -/
structure OptionState (D Path : Type) where
  settings : Settings D
  files : Files Path
  truncated : List Path

/-- What C leaves undefined here: reading `argv` behind its end, and `fopen` of `NULL`. -/
inductive Fault where
  | pastArgv
  | nullPath
  deriving DecidableEq, Repr

/-- How a turn ends: with an error return of `main`, or having taken one or two arguments. -/
inductive Turn (D Path : Type) where
  | fault (f : Fault)
  | error (message : String) (o : OptionState D Path)
  | one (o : OptionState D Path)
  | two (o : OptionState D Path)

variable {D Path : Type}

/-- The settings before the loop. -/
def Settings.initial (sys : System D Path) : Settings D where
  scale := 1
  remap := 1
  speed := sys.one
  dip := 0xFF
  translate := 0
  printerF := none
  serialFr := none
  serialFw := none
  svromF := none
  svramF := none
  ramF := none

def OptionState.initial (sys : System D Path) (files : Files Path) : OptionState D Path where
  settings := .initial sys
  files := files
  truncated := []

/-! ### What the loop leaves alone -/

/-- From `o` to `o'` no file that exists has changed, other than the truncated ones. -/
structure OptionState.Spares (o o' : OptionState D Path) : Prop where
  truncated : o.truncated ⊆ o'.truncated
  files : Keeps (· ∈ o'.truncated) o.files o'.files

theorem OptionState.Spares.trans {o o' o'' : OptionState D Path} (h : o.Spares o')
    (h' : o'.Spares o'') : o.Spares o'' where
  truncated := List.Subset.trans h.truncated h'.truncated
  files := (h.files.mono fun _ hq => h'.truncated hq).trans h'.files

/-- Settings do not matter. -/
theorem OptionState.Spares.of_files {o : OptionState D Path} {settings : Settings D}
    {files : Files Path} (h : Keeps (fun _ => False) o.files files) :
    o.Spares { o with settings, files } where
  truncated := List.Subset.refl _
  files := h.mono fun _ => False.elim

theorem OptionState.Spares.of_settings (o : OptionState D Path) (settings : Settings D) :
    o.Spares { o with settings } :=
  .of_files (Keeps.refl _ _)

theorem OptionState.Spares.refl (o : OptionState D Path) : o.Spares o := .of_settings o o.settings

/-- The state a turn ends in, if it is defined, has spared the files. -/
def Turn.Spares (o : OptionState D Path) : Turn D Path → Prop
  | .fault _ => True
  | .error _ o' => o.Spares o'
  | .one o' => o.Spares o'
  | .two o' => o.Spares o'

theorem Turn.Spares.ite {o : OptionState D Path} {c : Prop} [Decidable c] {t t' : Turn D Path}
    (h : t.Spares o) (h' : t'.Spares o) : (if c then t else t').Spares o := by
  split <;> assumption

/-! ### Turns -/

/-- An option with a number: the next argument when it is usable, else what follows the
letter. -/
def numericOption (usable : CString → Bool) (set : CString → Settings D) (message : String)
    (arg : CString) (next : Option CString) (o : OptionState D Path) : Turn D Path :=
  match next.filter usable with
  | some value => .two { o with settings := set value }
  | none =>
    if usable (arg.drop 2) then .one { o with settings := set (arg.drop 2) } else .error message o

theorem numericOption_spares (usable : CString → Bool) (set : CString → Settings D)
    (message : String) (arg : CString) (next : Option CString) (o : OptionState D Path) :
    (numericOption usable set message arg next o).Spares o := by
  unfold numericOption
  split
  · exact .of_settings _ _
  · split
    · exact .of_settings _ _
    · exact .refl _

/-- An option with a file. At the end of `argv` the argument after the terminator is looked
at as well. -/
def fileOption (sys : System D Path) (openFile : Files Path → Path → Option (Files Path))
    (set : CString → Settings D) (message : String) (next : Option CString)
    (o : OptionState D Path) : Turn D Path :=
  match next with
  | none => .fault .pastArgv
  | some name =>
    match openFile o.files (sys.locate name) with
    | some files => .two { o with settings := set name, files }
    | none => .error message o

/-- A file that can be opened is taken. -/
theorem fileOption_of_open (sys : System D Path)
    (openFile : Files Path → Path → Option (Files Path)) (set : CString → Settings D)
    (message : String) (name : CString) (o : OptionState D Path) {files : Files Path}
    (h : openFile o.files (sys.locate name) = some files) :
    fileOption sys openFile set message (some name) o
      = .two { o with settings := set name, files } := by
  simp only [fileOption, h]

theorem fileOption_spares (sys : System D Path)
    {openFile : Files Path → Path → Option (Files Path)} (set : CString → Settings D)
    (message : String) (next : Option CString) (o : OptionState D Path)
    (keeps : ∀ path files, openFile o.files path = some files →
      Keeps (fun _ => False) o.files files) :
    (fileOption sys openFile set message next o).Spares o := by
  unfold fileOption
  split
  · trivial
  · split
    next hopen => exact .of_files (keeps _ _ hopen)
    next => exact .refl _

variable [DecidableEq Path]

/-- The option `-o`, which is a file option that truncates its file. -/
def serialOutputOption (sys : System D Path) (next : Option CString) (o : OptionState D Path) :
    Turn D Path :=
  let turn := fileOption sys (fun files => fopen sys.toHost files .truncate)
    (fun name => { o.settings with serialFw := some name }) "not a valid serial output file\n"
    next o
  match next, turn with
  | some name, .two o => .two { o with truncated := sys.locate name :: o.truncated }
  | _, turn => turn

/-- A turn of the option loop for an argument that starts with a dash. -/
def optionTurn (sys : System D Path) (arg : CString) (next : Option CString)
    (o : OptionState D Path) : Turn D Path :=
  let s := o.settings
  let letter := arg.getD 1 0
  if !isalpha letter then .one o
  else if letter = 's'.toUInt8 then
    numericOption (fun v => 0 < atoi v && atoi v ≤ 16)
      (fun v => { s with scale := UInt8.ofInt (atoi v) }) "invalid scale\n" arg next o
  else if letter = 'd'.toUInt8 then
    numericOption (fun v => strtol v 0 != 0)
      (fun v => { s with dip := UInt8.ofInt (strtol v 0) }) "invalid dip switch\n" arg next o
  else if letter = 'x'.toUInt8 then
    numericOption (fun v => !sys.isZero (sys.strtod v))
      (fun v => { s with speed := sys.strtod v }) "invalid speed\n" arg next o
  else if letter = 'p'.toUInt8 then
    fileOption sys (fun files => fopen sys.toHost files .append)
      (fun name => { s with printerF := some name }) "not a valid printer file\n" next o
  else if letter = 'i'.toUInt8 then
    fileOption sys (fun files => fopen sys.toHost files .update)
      (fun name => { s with serialFr := some name }) "not a valid serial input file\n" next o
  else if letter = 'o'.toUInt8 then
    serialOutputOption sys next o
  else if letter = 't'.toUInt8 then
    .one { o with settings := { s with translate := 1 } }
  else if letter = 'c'.toUInt8 then
    fileOption sys (fun files => fopen sys.toHost files .read)
      (fun name => { s with svromF := some name }) "not a valid svrom file\n" next o
  else if letter = 'n'.toUInt8 then
    fileOption sys (openUpdate sys.toHost)
      (fun name => { s with svramF := some name }) "not a valid svram file\n" next o
  else if letter = 'b'.toUInt8 then
    fileOption sys (openUpdate sys.toHost)
      (fun name => { s with ramF := some name }) "not a valid ram file\n" next o
  else if letter = 'r'.toUInt8 then
    .one { o with settings := { s with remap := 0 } }
  else .one o

theorem optionTurn_svram (sys : System D Path) (name : CString) (o : OptionState D Path)
    {files : Files Path} (h : openUpdate sys.toHost o.files (sys.locate name) = some files) :
    optionTurn sys (['-', 'n'].map Char.toUInt8) (some name) o
      = .two { o with settings := { o.settings with svramF := some name }, files } :=
  fileOption_of_open sys (openUpdate sys.toHost)
    (fun name => { o.settings with svramF := some name }) "not a valid svram file\n" name o h

theorem optionTurn_ram (sys : System D Path) (name : CString) (o : OptionState D Path)
    {files : Files Path} (h : openUpdate sys.toHost o.files (sys.locate name) = some files) :
    optionTurn sys (['-', 'b'].map Char.toUInt8) (some name) o
      = .two { o with settings := { o.settings with ramF := some name }, files } :=
  fileOption_of_open sys (openUpdate sys.toHost)
    (fun name => { o.settings with ramF := some name }) "not a valid ram file\n" name o h

/-! ### The loop -/

/-- How the option loop ends; `rom` is `argv[rom_file]`. -/
inductive Parsed (D Path : Type) where
  | fault (f : Fault)
  | error (message : String) (o : OptionState D Path)
  | done (o : OptionState D Path) (rom : Option CString)

/-- The option loop. -/
def parseOptions (sys : System D Path) : List CString → OptionState D Path → Parsed D Path
  | [], o => .done o none
  | arg :: rest, o =>
    if arg.head? = some '-'.toUInt8 then
      match optionTurn sys arg rest.head? o with
      | .fault f => .fault f
      | .error message o => .error message o
      | .one o => parseOptions sys rest o
      | .two o =>
        match rest with
        | [] => .done o none
        | _ :: rest => parseOptions sys rest o
    else .done o (some arg)

/-- A turn that takes one argument. -/
theorem parseOptions_one {sys : System D Path} {arg : CString} (rest : List CString)
    {o o' : OptionState D Path} (dash : arg.head? = some '-'.toUInt8)
    (turn : optionTurn sys arg rest.head? o = .one o') :
    parseOptions sys (arg :: rest) o = parseOptions sys rest o' := by
  rw [parseOptions, if_pos dash, turn]

/-- A turn that takes two arguments. -/
theorem parseOptions_two {sys : System D Path} {arg value : CString} (rest : List CString)
    {o o' : OptionState D Path} (dash : arg.head? = some '-'.toUInt8)
    (turn : optionTurn sys arg (some value) o = .two o') :
    parseOptions sys (arg :: value :: rest) o = parseOptions sys rest o' := by
  rw [parseOptions, if_pos dash, List.head?_cons, turn]

/-- An argument without a dash ends the loop. -/
theorem parseOptions_operand (sys : System D Path) {arg : CString} (rest : List CString)
    (o : OptionState D Path) (dash : arg.head? ≠ some '-'.toUInt8) :
    parseOptions sys (arg :: rest) o = .done o (some arg) := by
  rw [parseOptions, if_neg dash]

/-! ### Every turn spares the files -/

/-- Opening in a mode other than `"w+b"` is harmless. -/
theorem fopen_keeps_all {host : Host Path} {mode : Mode} (hmode : mode ≠ .truncate)
    {files files' : Files Path} {path : Path} (h : fopen host files mode path = some files') :
    Keeps (fun _ => False) files files' :=
  (fopen_keeps h).mono fun _ hq => hmode hq.1

theorem serialOutputOption_spares (sys : System D Path) (next : Option CString)
    (o : OptionState D Path) : (serialOutputOption sys next o).Spares o := by
  unfold serialOutputOption fileOption
  cases next with
  | none => trivial
  | some name =>
    dsimp only
    cases hopen : fopen sys.toHost o.files .truncate (sys.locate name) with
    | none => exact .refl _
    | some files =>
      refine ⟨List.subset_cons_self _ _, (fopen_keeps hopen).mono ?_⟩
      rintro q ⟨-, rfl⟩
      exact List.mem_cons_self

theorem optionTurn_spares (sys : System D Path) (arg : CString) (next : Option CString)
    (o : OptionState D Path) : (optionTurn sys arg next o).Spares o := by
  have hsettings := OptionState.Spares.of_settings o
  have hopen : ∀ mode, mode ≠ .truncate → ∀ path files, fopen sys.toHost o.files mode path
      = some files → Keeps (fun _ => False) o.files files :=
    fun mode hmode path files h => fopen_keeps_all hmode h
  have hupdate : ∀ path files, openUpdate sys.toHost o.files path = some files →
      Keeps (fun _ => False) o.files files := fun path files h => openUpdate_keeps _ h
  have hnumeric := fun usable set message =>
    numericOption_spares (D := D) usable set message arg next o
  unfold optionTurn
  refine .ite (.refl o) ?_
  refine .ite (hnumeric _ _ _) (.ite (hnumeric _ _ _) (.ite (hnumeric _ _ _) ?_))
  refine .ite (fileOption_spares sys _ _ _ _ (hopen .append (by decide))) ?_
  refine .ite (fileOption_spares sys _ _ _ _ (hopen .update (by decide))) ?_
  refine .ite (serialOutputOption_spares sys next o) ?_
  refine .ite (hsettings _) ?_
  refine .ite (fileOption_spares sys _ _ _ _ (hopen .read (by decide))) ?_
  refine .ite (fileOption_spares sys _ _ _ _ hupdate) ?_
  refine .ite (fileOption_spares sys _ _ _ _ hupdate) ?_
  exact .ite (hsettings _) (.refl o)

/-- The state the loop ends in, if it is defined. -/
def Parsed.state? : Parsed D Path → Option (OptionState D Path)
  | .fault _ => none
  | .error _ o => some o
  | .done o _ => some o

/-- The option loop changes no file that exists, other than those that `-o` opens. -/
theorem parseOptions_spares (sys : System D Path) (args : List CString)
    {o o' : OptionState D Path} (h : (parseOptions sys args o).state? = some o') : o.Spares o' := by
  fun_induction parseOptions sys args o with
  | case1 o => exact Option.some.inj h ▸ .refl o
  | case2 arg rest o _ f hturn => cases h
  | case3 arg rest o _ message o₁ hturn =>
    have hspares := optionTurn_spares sys arg rest.head? o
    rw [hturn] at hspares
    exact Option.some.inj h ▸ hspares
  | case4 arg rest o _ o₁ hturn ih =>
    have hspares := optionTurn_spares sys arg rest.head? o
    rw [hturn] at hspares
    exact hspares.trans (ih h)
  | case5 arg o _ o₁ hturn =>
    have hspares := optionTurn_spares sys arg none o
    rw [show optionTurn sys arg none o = .two o₁ from hturn] at hspares
    exact Option.some.inj h ▸ hspares
  | case6 arg o _ o₁ value rest hturn ih =>
    have hspares := optionTurn_spares sys arg (some value) o
    rw [show optionTurn sys arg (some value) o = .two o₁ from hturn] at hspares
    exact hspares.trans (ih h)
  | case7 arg rest o _ => exact Option.some.inj h ▸ .refl o

end Kyacopycat
