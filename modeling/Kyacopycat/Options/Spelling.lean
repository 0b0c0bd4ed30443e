import Kyacopycat.Options.Numbers
import Kyacopycat.Options.Dangling

/-!
Command lines that spell settings.

A `CommandLine` is a choice of settings, and `CommandLine.options` the options that spell
them. The option loop reads the options in any order; only the value that is attached to a
last `-s` or `-d` is lost to a ROM whose name starts with a number.

* `run_options`: the loop on a list of options is the fold of what each one sets.
* `applyAll_perm`: the options of a command line set the same in any order.
* `spelled_iff`: when the loop ends with the settings and the ROM of the command line.
-/

namespace Kyacopycat

open Stdio

variable {D Path : Type} [DecidableEq Path]

/-! ### Options -/

/-- How an option with a number is written: as two arguments or as one. -/
inductive Form where
  | separate
  | attached
  deriving DecidableEq, Repr

/-- A scale with a text that spells it. -/
structure ScaleValue where
  value : UInt8
  text : CString
  range : 1 ≤ value.toNat ∧ value.toNat ≤ 16
  spells : atoi text = value.toNat

/-- A value of the setting switches with a text that spells it. -/
structure DipValue where
  value : UInt8
  text : CString
  range : 1 ≤ value.toNat
  spells : strtol text 0 = value.toNat

theorem toNat_ofNat_of_le {n : Nat} (h : n ≤ 255) : (UInt8.ofNat n).toNat = n :=
  UInt8.toNat_ofNat_of_lt' (Nat.lt_succ_of_le h)

/-- Every scale has its decimal text. -/
def ScaleValue.ofNat (n : Nat) (range : 1 ≤ n ∧ n ≤ 16) : ScaleValue where
  value := UInt8.ofNat n
  text := decimal n
  range := by rwa [toNat_ofNat_of_le (by omega)]
  spells := by rw [toNat_ofNat_of_le (by omega), atoi_decimal (by omega) (by omega)]

/-- Every value of the switches but zero has its decimal text. -/
def DipValue.ofNat (n : Nat) (range : 1 ≤ n ∧ n ≤ 255) : DipValue where
  value := UInt8.ofNat n
  text := decimal n
  range := (toNat_ofNat_of_le range.2).symm ▸ range.1
  spells := by
    rw [toNat_ofNat_of_le range.2, strtol_decimal (by omega) (by omega) (.inl rfl)]

/-- The options that take a file. -/
inductive FileKind where
  | printer
  | serialIn
  | serialOut
  | svrom
  | svram
  | ram
  deriving DecidableEq, Repr

def FileKind.letter : FileKind → Char
  | .printer => 'p'
  | .serialIn => 'i'
  | .serialOut => 'o'
  | .svrom => 'c'
  | .svram => 'n'
  | .ram => 'b'

/-- An option of the command line, with its value. -/
inductive OptionArg where
  | scale (s : ScaleValue) (form : Form)
  | dip (d : DipValue) (form : Form)
  | noRemap
  | translate
  | file (kind : FileKind) (name : CString)

/-- A dash and a letter. -/
def dashed (letter : Char) : CString := ['-', letter].map Char.toUInt8

/-- The arguments of an option with a number. -/
def Form.args (letter : Char) (text : CString) : Form → List CString
  | .separate => [dashed letter, text]
  | .attached => [dashed letter ++ text]

/-- The arguments of an option. -/
def OptionArg.args : OptionArg → List CString
  | .scale s form => form.args 's' s.text
  | .dip d form => form.args 'd' d.text
  | .noRemap => [dashed 'r']
  | .translate => [dashed 't']
  | .file kind name => [dashed kind.letter, name]

/-- The settings with a file, if one is named. -/
def FileKind.set (kind : FileKind) (name : Option CString) (s : Settings D) : Settings D :=
  match kind with
  | .printer => { s with printerF := name.or s.printerF }
  | .serialIn => { s with serialFr := name.or s.serialFr }
  | .serialOut => { s with serialFw := name.or s.serialFw }
  | .svrom => { s with svromF := name.or s.svromF }
  | .svram => { s with svramF := name.or s.svramF }
  | .ram => { s with ramF := name.or s.ramF }

/-- What an option sets. -/
def OptionArg.apply (s : Settings D) : OptionArg → Settings D
  | .scale v _ => { s with scale := v.value }
  | .dip v _ => { s with dip := v.value }
  | .noRemap => { s with remap := 0 }
  | .translate => { s with translate := 1 }
  | .file kind name => kind.set (some name) s

/-- The files after the option, when its file can be opened. -/
def OptionArg.opens (sys : System D Path) (files : Files Path) : OptionArg → Option (Files Path)
  | .scale _ _ | .dip _ _ | .noRemap | .translate => some files
  | .file kind name => openOption sys kind.letter.toUInt8 files name

/-- An option with an attached value takes this next argument for its value. -/
def OptionArg.Takes (next : CString) : OptionArg → Prop
  | .scale _ form => form = .attached ∧ 0 < atoi next ∧ atoi next ≤ 16
  | .dip _ form => form = .attached ∧ strtol next 0 ≠ 0
  | .noRemap | .translate | .file _ _ => False

/-! ### One option -/

omit [DecidableEq Path] in
theorem numericOption_separate (usable : CString → Bool) {value : CString}
    (h : usable value = true) (set : CString → Settings D) (message : String) (arg : CString)
    (o : OptionState D Path) :
    numericOption usable set message arg (some value) o
      = .two { o with settings := set value } := by
  rw [numericOption, Option.filter_some_pos h]

omit [DecidableEq Path] in
theorem numericOption_attached {usable : CString → Bool} {next : Option CString}
    (arg : CString) (hnext : ∀ value, next = some value → usable value = false)
    (h : usable (arg.drop 2) = true) (set : CString → Settings D) (message : String)
    (o : OptionState D Path) :
    numericOption usable set message arg next o
      = .one { o with settings := set (arg.drop 2) } := by
  have hnone : next.filter usable = none := by
    rw [Option.filter_eq_none_iff]
    intro value hvalue
    exact Bool.eq_false_iff.mp (hnext value hvalue)
  rw [numericOption, hnone]
  exact if_pos h

theorem ofInt_toNat (v : UInt8) : UInt8.ofInt (v.toNat : Int) = v := by
  have hlt := v.toNat_lt
  rw [UInt8.ofInt, Int.emod_eq_of_lt (by omega) (by omega), Int.toNat_natCast, UInt8.ofNat_toNat]

/-- An option starts with a dash and a letter. -/
theorem OptionArg.args_eq_cons (opt : OptionArg) :
    ∃ letter text rest, isalpha letter = true ∧
      opt.args = ('-'.toUInt8 :: letter :: text) :: rest := by
  cases opt with
  | scale s form => cases form <;> exact ⟨_, _, _, rfl, rfl⟩
  | dip d form => cases form <;> exact ⟨_, _, _, rfl, rfl⟩
  | noRemap => exact ⟨_, _, _, rfl, rfl⟩
  | translate => exact ⟨_, _, _, rfl, rfl⟩
  | file kind name => cases kind <;> exact ⟨_, _, _, rfl, rfl⟩

/-- No option takes another one for its value. -/
theorem OptionArg.not_takes_option (opt : OptionArg) {letter : UInt8}
    (hletter : isalpha letter = true) (text : CString) :
    ¬ opt.Takes ('-'.toUInt8 :: letter :: text) := by
  intro takes
  cases opt with
  | scale s form =>
    rw [OptionArg.Takes, atoi_option hletter] at takes
    exact absurd takes.2.1 (by decide)
  | dip d form => exact takes.2 (strtol_option hletter text (.inl rfl))
  | noRemap => exact takes
  | translate => exact takes
  | file kind name => exact takes

theorem serialOutputOption_of_open (sys : System D Path) (name : CString)
    (o : OptionState D Path) {files : Files Path}
    (h : fopen sys.toHost o.files .truncate (sys.locate name) = some files) :
    serialOutputOption sys (some name) o = .two {
      settings := { o.settings with serialFw := some name }
      files
      truncated := sys.locate name :: o.truncated } := by
  simp only [serialOutputOption, fileOption, h]

/-- The turn of a file option whose file can be opened. -/
theorem optionTurn_file (sys : System D Path) (kind : FileKind) (name : CString)
    (o : OptionState D Path) {files : Files Path}
    (h : openOption sys kind.letter.toUInt8 o.files name = some files) :
    ∃ o', optionTurn sys (dashed kind.letter) (some name) o = .two o' ∧
      o'.settings = kind.set (some name) o.settings ∧ o'.files = files := by
  cases kind with
  | printer =>
    exact ⟨_, fileOption_of_open sys (fun files => fopen sys.toHost files .append)
      (fun name => FileKind.printer.set (some name) o.settings) "not a valid printer file\n" name o
      h, rfl, rfl⟩
  | serialIn =>
    exact ⟨_, fileOption_of_open sys (fun files => fopen sys.toHost files .update)
      (fun name => FileKind.serialIn.set (some name) o.settings) "not a valid serial input file\n"
      name o h, rfl, rfl⟩
  | serialOut =>
    exact ⟨_, serialOutputOption_of_open sys name o h, rfl, rfl⟩
  | svrom =>
    exact ⟨_, fileOption_of_open sys (fun files => fopen sys.toHost files .read)
      (fun name => FileKind.svrom.set (some name) o.settings) "not a valid svrom file\n" name o h,
      rfl, rfl⟩
  | svram => exact ⟨_, optionTurn_svram sys name o h, rfl, rfl⟩
  | ram => exact ⟨_, optionTurn_ram sys name o h, rfl, rfl⟩

/-- The loop on an option with a number. An attached value counts only when the next argument
is not usable. -/
theorem Form.parseOptions_append (form : Form) {sys : System D Path} {letter : Char}
    {text : CString} {rest : List CString} {o : OptionState D Path} {usable : CString → Bool}
    {set : CString → Settings D} {message : String}
    (turn : ∀ text next, optionTurn sys (dashed letter ++ text) next o
      = numericOption usable set message (dashed letter ++ text) next o)
    (htext : usable text = true)
    (free : form = .attached → ∀ next, rest.head? = some next → usable next = false) :
    parseOptions sys (form.args letter text ++ rest) o
      = parseOptions sys rest { o with settings := set text } := by
  cases form with
  | separate =>
    refine parseOptions_two rest rfl ?_
    rw [← numericOption_separate usable htext set message (dashed letter ++ []) o, ← turn]
    rfl
  | attached =>
    have hone := (turn text rest.head?).trans
      (numericOption_attached (dashed letter ++ text) (free rfl) htext set message o)
    exact parseOptions_one rest rfl hone

/-- The loop on one option whose value is not looked for in what follows. -/
theorem OptionArg.parseOptions_append (opt : OptionArg) (sys : System D Path)
    (rest : List CString) (o : OptionState D Path) {files : Files Path}
    (opens : opt.opens sys o.files = some files)
    (free : ∀ next, rest.head? = some next → ¬ opt.Takes next) :
    ∃ o', parseOptions sys (opt.args ++ rest) o = parseOptions sys rest o' ∧
      o'.settings = opt.apply o.settings ∧ o'.files = files := by
  cases opt with
  | scale s form =>
    have husable : (0 < atoi s.text && atoi s.text ≤ 16) = true := by
      have := s.range
      simp only [s.spells, Bool.and_eq_true, decide_eq_true_eq]
      omega
    refine ⟨_, form.parseOptions_append (fun _ _ => rfl) husable ?_, ?_,
      Option.some.inj opens⟩
    · intro hform next hnext
      have hfree : ¬ (0 < atoi next ∧ atoi next ≤ 16) := fun h => free next hnext ⟨hform, h⟩
      simpa using hfree
    · rw [OptionArg.apply, s.spells, ofInt_toNat]
  | dip d form =>
    have husable : (strtol d.text 0 != 0) = true := by
      have := d.range
      simp only [d.spells, bne_iff_ne]
      omega
    refine ⟨_, form.parseOptions_append (fun _ _ => rfl) husable ?_, ?_,
      Option.some.inj opens⟩
    · intro hform next hnext
      have hfree : ¬ strtol next 0 ≠ 0 := fun h => free next hnext ⟨hform, h⟩
      simpa using hfree
    · rw [OptionArg.apply, d.spells, ofInt_toNat]
  | noRemap => exact ⟨_, rfl, rfl, Option.some.inj opens⟩
  | translate => exact ⟨_, rfl, rfl, Option.some.inj opens⟩
  | file kind name =>
    obtain ⟨o', hturn, hsettings, hfiles⟩ := optionTurn_file sys kind name o opens
    exact ⟨o', parseOptions_two rest rfl hturn, hsettings, hfiles⟩

/-! ### A list of options -/

/-- What the options set, one after the other. -/
def applyAll (s : Settings D) (order : List OptionArg) : Settings D :=
  order.foldl OptionArg.apply s

/-- The files after the options, when all their files can be opened. -/
def openAll (sys : System D Path) (files : Files Path) (order : List OptionArg) :
    Option (Files Path) :=
  order.foldlM (OptionArg.opens sys) files

/-- The arguments of the options. -/
def argsOf (order : List OptionArg) : List CString := order.flatMap OptionArg.args

/-- The loop on a list of options. Only the last one can look for its value in what follows
the list. -/
theorem run_options (sys : System D Path) (order : List OptionArg) (rest : List CString)
    (o : OptionState D Path) {files : Files Path}
    (opens : openAll sys o.files order = some files)
    (free : ∀ opt, order.getLast? = some opt → ∀ next, rest.head? = some next →
      ¬ opt.Takes next) :
    ∃ o', parseOptions sys (argsOf order ++ rest) o = parseOptions sys rest o' ∧
      o'.settings = applyAll o.settings order ∧ o'.files = files := by
  induction order generalizing o with
  | nil => exact ⟨o, rfl, rfl, Option.some.inj opens⟩
  | cons opt order ih =>
    obtain ⟨files₁, hopt, horder⟩ := Option.bind_eq_some_iff.mp opens
    have hfree : ∀ next, (argsOf order ++ rest).head? = some next → ¬ opt.Takes next := by
      cases order with
      | nil => exact free opt rfl
      | cons opt' order =>
        -- The next argument is the option `opt'`.
        obtain ⟨letter, text, tail, hletter, hargs⟩ := opt'.args_eq_cons
        intro next hnext
        rw [argsOf, List.flatMap_cons, hargs] at hnext
        obtain rfl := Option.some.inj hnext
        exact opt.not_takes_option hletter text
    obtain ⟨o₁, hparse, hsettings, rfl⟩ := opt.parseOptions_append sys _ o hopt hfree
    have hlast : ∀ opt', order.getLast? = some opt' → ∀ next, rest.head? = some next →
        ¬ opt'.Takes next := by
      intro opt' hopt'
      refine free opt' ?_
      rw [List.getLast?_cons, hopt', Option.getD_some]
    obtain ⟨o', hrest, hsettings', hfiles'⟩ := ih o₁ horder hlast
    refine ⟨o', ?_, ?_, hfiles'⟩
    · rw [← hrest, ← hparse, argsOf, List.flatMap_cons, List.append_assoc]
      rfl
    · rw [hsettings', hsettings]
      rfl

/-! ### Command lines -/

/-- A choice of settings. -/
structure CommandLine where
  scale : Option (ScaleValue × Form)
  dip : Option (DipValue × Form)
  noRemap : Bool
  translate : Bool
  file : FileKind → Option CString

/-- The options that spell the choice. -/
def CommandLine.options (cl : CommandLine) : List OptionArg :=
  (cl.scale.map fun s => .scale s.1 s.2).toList ++
  (cl.dip.map fun d => .dip d.1 d.2).toList ++
  (if cl.noRemap then [.noRemap] else []) ++
  (if cl.translate then [.translate] else []) ++
  [FileKind.printer, .serialIn, .serialOut, .svrom, .svram, .ram].flatMap fun kind =>
    ((cl.file kind).map (.file kind)).toList

/-- The settings of the choice. What is not chosen keeps its default. -/
def CommandLine.settings (cl : CommandLine) (sys : System D Path) : Settings D where
  scale := cl.scale.elim 1 fun s => s.1.value
  remap := if cl.noRemap then 0 else 1
  speed := sys.one
  dip := cl.dip.elim 0xFF fun d => d.1.value
  translate := if cl.translate then 1 else 0
  printerF := cl.file .printer
  serialFr := cl.file .serialIn
  serialFw := cl.file .serialOut
  svromF := cl.file .svrom
  svramF := cl.file .svram
  ramF := cl.file .ram

/-- The choice that an option belongs to. -/
inductive Slot where
  | scale
  | dip
  | noRemap
  | translate
  | file (kind : FileKind)
  deriving DecidableEq

def OptionArg.slot : OptionArg → Slot
  | .scale _ _ => .scale
  | .dip _ _ => .dip
  | .noRemap => .noRemap
  | .translate => .translate
  | .file kind _ => .file kind

theorem FileKind.set_comm {kind kind' : FileKind} (h : kind ≠ kind') (name name' : Option CString)
    (s : Settings D) : kind'.set name' (kind.set name s) = kind.set name (kind'.set name' s) := by
  cases kind <;> cases kind' <;> first | rfl | exact absurd rfl h

/-- Options of different choices may be exchanged. -/
theorem apply_comm {opt opt' : OptionArg} (h : opt.slot ≠ opt'.slot) (s : Settings D) :
    opt'.apply (opt.apply s) = opt.apply (opt'.apply s) := by
  cases opt with
  | scale v form =>
    cases opt' with
    | scale v' form' => exact absurd rfl h
    | file kind name => cases kind <;> rfl
    | _ => rfl
  | dip v form =>
    cases opt' with
    | dip v' form' => exact absurd rfl h
    | file kind name => cases kind <;> rfl
    | _ => rfl
  | noRemap =>
    cases opt' with
    | file kind name => cases kind <;> rfl
    | _ => rfl
  | translate =>
    cases opt' with
    | file kind name => cases kind <;> rfl
    | _ => rfl
  | file kind name =>
    cases opt' with
    | file kind' name' => exact FileKind.set_comm (fun heq => h (congrArg Slot.file heq)) _ _ s
    | _ => cases kind <;> rfl

theorem mem_options {cl : CommandLine} {opt : OptionArg} :
    opt ∈ cl.options ↔
      match opt with
      | .scale s form => cl.scale = some (s, form)
      | .dip d form => cl.dip = some (d, form)
      | .noRemap => cl.noRemap = true
      | .translate => cl.translate = true
      | .file kind name => cl.file kind = some name := by
  cases opt with
  | file kind name => cases kind <;> simp [CommandLine.options]
  | _ => simp [CommandLine.options]

/-- A command line has at most one option for each choice. -/
theorem eq_of_slot_eq {cl : CommandLine} {opt opt' : OptionArg} (hopt : opt ∈ cl.options)
    (hopt' : opt' ∈ cl.options) (h : opt.slot = opt'.slot) : opt = opt' := by
  rw [mem_options] at hopt hopt'
  cases opt <;> cases opt' <;> cases h <;> simp_all

theorem applyAll_append (s : Settings D) (order order' : List OptionArg) :
    applyAll s (order ++ order') = applyAll (applyAll s order) order' :=
  List.foldl_append

theorem applyAll_scale (s : Settings D) (scale : Option (ScaleValue × Form)) :
    applyAll s (scale.map fun v => OptionArg.scale v.1 v.2).toList
      = { s with scale := scale.elim s.scale fun v => v.1.value } := by
  cases scale <;> rfl

theorem applyAll_dip (s : Settings D) (dip : Option (DipValue × Form)) :
    applyAll s (dip.map fun v => OptionArg.dip v.1 v.2).toList
      = { s with dip := dip.elim s.dip fun v => v.1.value } := by
  cases dip <;> rfl

theorem applyAll_noRemap (s : Settings D) (flag : Bool) :
    applyAll s (if flag then [.noRemap] else [])
      = { s with remap := if flag then 0 else s.remap } := by
  cases flag <;> rfl

theorem applyAll_translate (s : Settings D) (flag : Bool) :
    applyAll s (if flag then [.translate] else [])
      = { s with translate := if flag then 1 else s.translate } := by
  cases flag <;> rfl

theorem applyAll_file (s : Settings D) (kind : FileKind) (name : Option CString) :
    applyAll s (name.map (OptionArg.file kind)).toList = kind.set name s := by
  cases name with
  | none => cases kind <;> rfl
  | some name => rfl

omit [DecidableEq Path] in
/-- The options of a command line set what it chooses. -/
theorem applyAll_options (cl : CommandLine) (sys : System D Path) :
    applyAll (.initial sys) cl.options = cl.settings sys := by
  simp only [CommandLine.options, applyAll_append, applyAll_scale, applyAll_dip,
    applyAll_noRemap, applyAll_translate, List.flatMap_cons, List.flatMap_nil, applyAll_file,
    FileKind.set, Settings.initial, Option.or_none]
  rfl

omit [DecidableEq Path] in
/-- In any order the options of a command line set what it chooses. -/
theorem applyAll_perm {cl : CommandLine} {order : List OptionArg} (perm : order.Perm cl.options)
    (sys : System D Path) : applyAll (.initial sys) order = cl.settings sys := by
  have hcomm : ∀ opt ∈ order, ∀ opt' ∈ order, ∀ s : Settings D,
      opt'.apply (opt.apply s) = opt.apply (opt'.apply s) := by
    intro opt hopt opt' hopt' s
    by_cases h : opt.slot = opt'.slot
    · rw [eq_of_slot_eq (perm.mem_iff.mp hopt) (perm.mem_iff.mp hopt') h]
    · exact apply_comm h s
  exact (perm.foldl_eq' hcomm _).trans (applyAll_options cl sys)

/-! ### The loop on a command line -/

/-- The last option takes the ROM for its value. -/
def TakesRom (order : List OptionArg) (rom : CString) : Prop :=
  ∃ opt, order.getLast? = some opt ∧ opt.Takes rom

/-- An option that takes the ROM for its value leaves none. -/
theorem OptionArg.parseOptions_takes {opt : OptionArg} {rom : CString} (takes : opt.Takes rom)
    (sys : System D Path) (o : OptionState D Path) :
    ∃ o', parseOptions sys (opt.args ++ [rom]) o = .done o' none := by
  cases opt with
  | scale s form =>
    obtain ⟨rfl, husable⟩ := takes
    have hrom : (0 < atoi rom && atoi rom ≤ 16) = true := by simpa using husable
    have hturn := numericOption_separate (fun v => 0 < atoi v && atoi v ≤ 16) hrom
      (fun v => { o.settings with scale := UInt8.ofInt (atoi v) }) "invalid scale\n"
      (dashed 's' ++ s.text) o
    exact ⟨_, parseOptions_two [] rfl hturn⟩
  | dip d form =>
    obtain ⟨rfl, husable⟩ := takes
    have hrom : (strtol rom 0 != 0) = true := by simpa using husable
    have hturn := numericOption_separate (fun v => strtol v 0 != 0) hrom
      (fun v => { o.settings with dip := UInt8.ofInt (strtol v 0) }) "invalid dip switch\n"
      (dashed 'd' ++ d.text) o
    exact ⟨_, parseOptions_two [] rfl hturn⟩
  | noRemap => exact takes.elim
  | translate => exact takes.elim
  | file kind name => exact takes.elim

/-- Without an option that takes the ROM, the loop ends at it with all settings. -/
theorem parseOptions_spelled {sys : System D Path} {cl : CommandLine} {order : List OptionArg}
    (perm : order.Perm cl.options) {files files' : Files Path}
    (opens : openAll sys files order = some files') {rom : CString}
    (operand : rom.head? ≠ some '-'.toUInt8) (free : ¬ TakesRom order rom) :
    ∃ o', parseOptions sys (argsOf order ++ [rom]) (.initial sys files) = .done o' (some rom) ∧
      o'.settings = cl.settings sys := by
  have hfree : ∀ opt, order.getLast? = some opt → ∀ next, [rom].head? = some next →
      ¬ opt.Takes next := by
    intro opt hopt next hnext takes
    obtain rfl := Option.some.inj hnext
    exact free ⟨opt, hopt, takes⟩
  obtain ⟨o', hparse, hsettings, -⟩ := run_options sys order [rom] (.initial sys files) opens hfree
  refine ⟨o', ?_, hsettings.trans (applyAll_perm perm sys)⟩
  rw [hparse, parseOptions_operand sys [] o' operand]

/-- With an option that takes the ROM, the loop ends without one. -/
theorem parseOptions_takesRom {sys : System D Path} {order : List OptionArg}
    {files files' : Files Path} (opens : openAll sys files order = some files') {rom : CString}
    (takesRom : TakesRom order rom) :
    ∃ o', parseOptions sys (argsOf order ++ [rom]) (.initial sys files) = .done o' none := by
  obtain ⟨opt, hopt, takes⟩ := takesRom
  obtain ⟨init, rfl⟩ := List.getLast?_eq_some_iff.mp hopt
  -- The options before the last one are followed by it.
  have hinit : ∃ files₁, openAll sys files init = some files₁ := by
    rw [openAll, List.foldlM_append] at opens
    obtain ⟨files₁, hfiles, -⟩ := Option.bind_eq_some_iff.mp opens
    exact ⟨files₁, hfiles⟩
  obtain ⟨files₁, hfiles⟩ := hinit
  obtain ⟨letter, text, tail, hletter, hargs⟩ := opt.args_eq_cons
  have hfree : ∀ opt', init.getLast? = some opt' → ∀ next,
      (opt.args ++ [rom]).head? = some next → ¬ opt'.Takes next := by
    intro opt' _ next hnext
    rw [hargs] at hnext
    obtain rfl := Option.some.inj hnext
    exact opt'.not_takes_option hletter text
  obtain ⟨o₁, hparse, -⟩ := run_options sys init (opt.args ++ [rom]) (.initial sys files) hfiles
    hfree
  obtain ⟨o', hdone⟩ := OptionArg.parseOptions_takes takes sys o₁
  refine ⟨o', ?_⟩
  have hargv : argsOf (init ++ [opt]) ++ [rom] = argsOf init ++ (opt.args ++ [rom]) := by
    simp [argsOf]
  rw [hargv, hparse, hdone]

/-- The loop ends with the settings and the ROM of the command line, for every order of the
options whose files can all be opened, exactly when the last option does not take the ROM for
its value: it is no `-s` with an attached value before a ROM whose name starts with a number
from 1 to 16, and no `-d` with an attached value before a ROM whose name starts with a number
other than zero. -/
theorem spelled_iff (sys : System D Path) (files : Files Path) (prog : CString)
    (cl : CommandLine) (order : List OptionArg) (rom : CString)
    (perm : order.Perm cl.options) (opens : (openAll sys files order).isSome)
    (operand : rom.head? ≠ some '-'.toUInt8) :
    (∃ k o, optionLoop sys (prog :: (argsOf order ++ [rom])) 1 (.initial sys files) = .done k o ∧
        o.settings = cl.settings sys ∧ (prog :: (argsOf order ++ [rom]))[k]? = some rom) ↔
      ¬ TakesRom order rom := by
  obtain ⟨files', hopens⟩ := Option.isSome_iff_exists.mp opens
  have hparsed := optionLoop_parsed sys prog (argsOf order ++ [rom]) (.initial sys files)
  constructor
  · rintro ⟨k, o, hdone, -, hrom⟩ takesRom
    obtain ⟨o', hnone⟩ := parseOptions_takesRom hopens takesRom
    rw [hnone, hdone, LoopEnd.parsed, hrom] at hparsed
    cases hparsed
  · intro free
    obtain ⟨o', hspelled, hsettings⟩ := parseOptions_spelled perm hopens operand free
    rw [hspelled] at hparsed
    cases hloop : optionLoop sys (prog :: (argsOf order ++ [rom])) 1 (.initial sys files) with
    | fault f => rw [hloop] at hparsed; cases hparsed
    | error message o => rw [hloop] at hparsed; cases hparsed
    | done k o =>
      rw [hloop] at hparsed
      obtain ⟨rfl, hrom⟩ := Parsed.done.inj hparsed
      exact ⟨k, o', rfl, hsettings, hrom.symm⟩

/-- The choice of a scale alone, as `-s3`. -/
def scaleLine : CommandLine where
  scale := some (.ofNat 3 (by decide), .attached)
  dip := none
  noRemap := false
  translate := false
  file := fun _ => none

/-- The choices of `-n sv -o ram -t -r -d 18 -s3`. -/
def mixedLine : CommandLine where
  scale := some (.ofNat 3 (by decide), .attached)
  dip := some (.ofNat 18 (by decide), .separate)
  noRemap := true
  translate := true
  file
    | .svram => some svFile
    | .serialOut => some ramFile
    | _ => none

/-- Its options, in the reversed order and before the ROM. -/
def mixedArgs : List CString := argsOf mixedLine.options.reverse ++ [romFile]

/-- They spell its settings and the ROM, which is no scale. -/
theorem spelled_mixed :
    ∃ k o, optionLoop .permissive (svFile :: mixedArgs) 1 (.initial .permissive fun _ => none)
        = .done k o ∧
      o.settings = mixedLine.settings .permissive ∧ (svFile :: mixedArgs)[k]? = some romFile := by
  have opens : (openAll .permissive (fun _ => none) mixedLine.options.reverse).isSome := rfl
  refine (spelled_iff .permissive (fun _ => none) svFile mixedLine mixedLine.options.reverse romFile
    (List.reverse_perm _) opens (by decide)).mpr ?_
  rintro ⟨opt, hopt, takes⟩
  obtain rfl := Option.some.inj hopt
  exact absurd takes.2.1 (by decide)

/-- The ROM name `5.rom`. -/
def numberedRom : CString := ['5', '.', 'r', 'o', 'm'].map Char.toUInt8

/-- The arguments `-s3 5.rom` do not: the scale is 5, and there is no ROM. -/
theorem not_spelled_numberedRom :
    ¬ ∀ (sys : System Unit CString) (files : Files CString) (prog : CString) (cl : CommandLine)
      (order : List OptionArg) (rom : CString), order.Perm cl.options →
      (openAll sys files order).isSome → rom ≠ [] → rom.head? ≠ some '-'.toUInt8 →
      ∃ k o, optionLoop sys (prog :: (argsOf order ++ [rom])) 1 (.initial sys files)
          = .done k o ∧
        o.settings = cl.settings sys ∧ (prog :: (argsOf order ++ [rom]))[k]? = some rom := by
  intro all
  obtain ⟨k, o, hdone, -, hrom⟩ := all .permissive (fun _ => none) svFile scaleLine
    scaleLine.options numberedRom (List.Perm.refl _) rfl (by decide) (by decide)
  have htakes : TakesRom scaleLine.options numberedRom := ⟨_, rfl, rfl, by decide, by decide⟩
  have hend : ∃ o', parseOptions .permissive (argsOf scaleLine.options ++ [numberedRom])
      (.initial .permissive fun _ => none) = .done o' none := parseOptions_takesRom rfl htakes
  obtain ⟨o', hnone⟩ := hend
  have hparsed := optionLoop_parsed .permissive svFile (argsOf scaleLine.options ++ [numberedRom])
    (.initial .permissive fun _ => none)
  rw [hnone, hdone, LoopEnd.parsed, hrom] at hparsed
  cases hparsed

end Kyacopycat
