import Kyacopycat.Options

/-!
The option loop on the argument vector itself.

Here the loop has the index `rom_file` and evaluates `argv` entry by entry. An entry behind
the terminating `NULL`, a `NULL` path and a `NULL` number are faults of their own.

* `turnAt_eq`, `parseOptions_eq`: it is the loop on the remaining arguments.
* `optionTurn_outline`: what every turn takes, by the kind of its option.
* `optionLoop_fault_eq`: the one fault it can have.
-/

namespace Kyacopycat

open Stdio

variable {D Path : Type} [DecidableEq Path]

/-! ### Entries of `argv` -/

/-- What the loop may do that C leaves undefined. -/
inductive ArgvFault where
  /-- `argv[k]` behind the terminating `NULL` -/
  | past (k : Nat)
  /-- `fopen` of `NULL` -/
  | nullPath
  /-- a numeric conversion of `NULL` -/
  | nullNumber
  deriving DecidableEq, Repr

/-- `argv[k]`. The entry after the last argument is `NULL`. -/
def argvAt (argv : List CString) (k : Nat) : Except ArgvFault (Option CString) :=
  if k ≤ argv.length then .ok argv[k]? else .error (.past k)

/-- A conversion applied to a pointer. -/
def convert {α : Type} (f : CString → α) : Option CString → Except ArgvFault α
  | some s => .ok (f s)
  | none => .error .nullNumber

/-- A pointer as the path of `fopen`. -/
def asPath : Option CString → Except ArgvFault CString
  | some s => .ok s
  | none => .error .nullPath

/-! ### Turns -/

/-- How a turn without a fault ends: with an error return of `main`, or with `rom_file` past
the option and, if `value` is set, past its value as well. -/
inductive ArgTurn (D Path : Type) where
  | error (message : String) (o : OptionState D Path)
  | next (value : Bool) (o : OptionState D Path)

/-- An option with a number. -/
def numericAt (usable : CString → Bool) (set : CString → Settings D) (message : String)
    (argv : List CString) (k : Nat) (arg : CString) (o : OptionState D Path) :
    Except ArgvFault (ArgTurn D Path) := do
  let next ← argvAt argv (k + 1)
  let separate ← if next.isNone then pure false else convert usable next
  if separate then
    let settings ← convert set (← argvAt argv (k + 1))
    return .next true { o with settings }
  else if usable (arg.drop 2) then return .next false { o with settings := set (arg.drop 2) }
  else return .error message o

/-- An option with a file. -/
def fileAt (sys : System D Path) (openFile : Files Path → Path → Option (Files Path))
    (opened : CString → Files Path → OptionState D Path) (message : String)
    (argv : List CString) (k : Nat) (o : OptionState D Path) :
    Except ArgvFault (ArgTurn D Path) := do
  let next ← argvAt argv (k + 1)
  let missing ← if next.isNone then Option.isNone <$> argvAt argv (k + 2) else pure false
  if missing then return .next false o
  else
    let name ← asPath (← argvAt argv (k + 1))
    match openFile o.files (sys.locate name) with
    | some files => return .next true (opened name files)
    | none => return .error message o

/-- A turn of the loop for the argument `argv[k]`, which starts with a dash. -/
def turnAt (sys : System D Path) (argv : List CString) (k : Nat) (arg : CString)
    (o : OptionState D Path) : Except ArgvFault (ArgTurn D Path) :=
  let s := o.settings
  let letter := arg.getD 1 0
  if !isalpha letter then .ok (.next false o)
  else if letter = 's'.toUInt8 then
    numericAt (fun v => 0 < atoi v && atoi v ≤ 16)
      (fun v => { s with scale := UInt8.ofInt (atoi v) }) "invalid scale\n" argv k arg o
  else if letter = 'd'.toUInt8 then
    numericAt (fun v => strtol v 0 != 0)
      (fun v => { s with dip := UInt8.ofInt (strtol v 0) }) "invalid dip switch\n" argv k arg o
  else if letter = 'x'.toUInt8 then
    numericAt (fun v => !sys.isZero (sys.strtod v))
      (fun v => { s with speed := sys.strtod v }) "invalid speed\n" argv k arg o
  else if letter = 'p'.toUInt8 then
    fileAt sys (fun files => fopen sys.toHost files .append)
      (fun name files => { o with settings := { s with printerF := some name }, files })
      "not a valid printer file\n" argv k o
  else if letter = 'i'.toUInt8 then
    fileAt sys (fun files => fopen sys.toHost files .update)
      (fun name files => { o with settings := { s with serialFr := some name }, files })
      "not a valid serial input file\n" argv k o
  else if letter = 'o'.toUInt8 then
    fileAt sys (fun files => fopen sys.toHost files .truncate)
      (fun name files => {
        settings := { s with serialFw := some name }
        files
        truncated := sys.locate name :: o.truncated })
      "not a valid serial output file\n" argv k o
  else if letter = 't'.toUInt8 then
    .ok (.next false { o with settings := { s with translate := 1 } })
  else if letter = 'c'.toUInt8 then
    fileAt sys (fun files => fopen sys.toHost files .read)
      (fun name files => { o with settings := { s with svromF := some name }, files })
      "not a valid svrom file\n" argv k o
  else if letter = 'n'.toUInt8 then
    fileAt sys (openUpdate sys.toHost)
      (fun name files => { o with settings := { s with svramF := some name }, files })
      "not a valid svram file\n" argv k o
  else if letter = 'b'.toUInt8 then
    fileAt sys (openUpdate sys.toHost)
      (fun name files => { o with settings := { s with ramF := some name }, files })
      "not a valid ram file\n" argv k o
  else if letter = 'r'.toUInt8 then
    .ok (.next false { o with settings := { s with remap := 0 } })
  else .ok (.next false o)

/-! ### The loop -/

/-- How the loop ends: with a fault, with an error return of `main`, or with `rom_file`. -/
inductive LoopEnd (D Path : Type) where
  | fault (f : ArgvFault)
  | error (message : String) (o : OptionState D Path)
  | done (romFile : Nat) (o : OptionState D Path)

theorem argvAt_eq_some {argv : List CString} {k : Nat} {arg : CString}
    (h : argvAt argv k = .ok (some arg)) : argv[k]? = some arg ∧ k < argv.length := by
  unfold argvAt at h
  split at h
  · have harg : argv[k]? = some arg := Except.ok.inj h
    exact ⟨harg, (List.getElem?_eq_some_iff.mp harg).1⟩
  · cases h

/-- The option loop of `main`, from `rom_file = k` on. Every turn moves `rom_file` on. -/
def optionLoop (sys : System D Path) (argv : List CString) (k : Nat) (o : OptionState D Path) :
    LoopEnd D Path :=
  match _h : argvAt argv k with
  | .error f => .fault f
  | .ok none => .done k o
  | .ok (some arg) =>
    if arg.head? = some '-'.toUInt8 then
      match turnAt sys argv k arg o with
      | .error f => .fault f
      | .ok (.error message o) => .error message o
      | .ok (.next value o) => optionLoop sys argv (k + 1 + value.toNat) o
    else .done k o
termination_by argv.length - k
decreasing_by
  have := (argvAt_eq_some _h).2
  omega

/-! ### Turns without a fault -/

theorem argvAt_succ {argv : List CString} {k : Nat} (hk : k < argv.length) :
    argvAt argv (k + 1) = .ok argv[k + 1]? :=
  if_pos hk

theorem argvAt_past {argv : List CString} {k : Nat} (hk : k + 1 = argv.length) :
    argvAt argv (k + 2) = .error (.past (k + 2)) :=
  if_neg (by omega)

omit [DecidableEq Path] in
/-- A numeric option converts only what it has found not to be `NULL`. -/
theorem numericAt_eq {argv : List CString} {k : Nat} (hk : k < argv.length)
    (usable : CString → Bool) (set : CString → Settings D) (message : String) (arg : CString)
    (o : OptionState D Path) :
    numericAt usable set message argv k arg o = .ok
      (match argv[k + 1]?.filter usable with
      | some value => .next true { o with settings := set value }
      | none =>
        if usable (arg.drop 2) then .next false { o with settings := set (arg.drop 2) }
        else .error message o) := by
  unfold numericAt
  rw [argvAt_succ hk]
  cases argv[k + 1]? with
  | none =>
    simp only [Option.isNone_none, Option.filter_none, if_true, bind, Except.bind, pure,
      Except.pure, Bool.false_eq_true, if_false]
    split <;> rfl
  | some value =>
    simp only [Option.isNone_some, Bool.false_eq_true, if_false, bind, Except.bind, pure,
      Except.pure, convert, Option.filter_some]
    by_cases h : usable value = true
    · simp only [h, if_true]
    · simp only [h, if_false, Bool.false_eq_true]
      split <;> rfl

omit [DecidableEq Path] in
/-- A file option opens only what it has found not to be `NULL`, or looks behind the end. -/
theorem fileAt_eq {argv : List CString} {k : Nat} (hk : k < argv.length) (sys : System D Path)
    (openFile : Files Path → Path → Option (Files Path))
    (opened : CString → Files Path → OptionState D Path) (message : String)
    (o : OptionState D Path) :
    fileAt sys openFile opened message argv k o =
      match argv[k + 1]? with
      | none => .error (.past (k + 2))
      | some name =>
        match openFile o.files (sys.locate name) with
        | some files => .ok (.next true (opened name files))
        | none => .ok (.error message o) := by
  unfold fileAt
  rw [argvAt_succ hk]
  cases hnext : argv[k + 1]? with
  | none =>
    have hlast : k + 1 = argv.length := by
      have := List.getElem?_eq_none_iff.mp hnext
      omega
    simp only [Option.isNone_none, if_true, argvAt_past hlast, bind, Except.bind]
    rfl
  | some name =>
    simp only [Option.isNone_some, Bool.false_eq_true, if_false, bind, Except.bind, pure,
      Except.pure, asPath]

/-! ### The turn on the remaining arguments -/

/-- A turn on the remaining arguments, as a turn at `argv[k]`. -/
def Turn.atArgv (k : Nat) : Turn D Path → Except ArgvFault (ArgTurn D Path)
  | .fault .pastArgv => .error (.past (k + 2))
  | .fault .nullPath => .error .nullPath
  | .error message o => .ok (.error message o)
  | .one o => .ok (.next false o)
  | .two o => .ok (.next true o)

omit [DecidableEq Path] in
theorem Turn.atArgv_ite {k : Nat} {c : Prop} [Decidable c]
    {a a' : Except ArgvFault (ArgTurn D Path)} {t t' : Turn D Path} (h : a = t.atArgv k)
    (h' : a' = t'.atArgv k) : (if c then a else a') = (if c then t else t').atArgv k := by
  split <;> assumption

omit [DecidableEq Path] in
theorem numericAt_eq_atArgv {argv : List CString} {k : Nat} (hk : k < argv.length)
    (usable : CString → Bool) (set : CString → Settings D) (message : String) (arg : CString)
    (o : OptionState D Path) :
    numericAt usable set message argv k arg o =
      (numericOption usable set message arg argv[k + 1]? o).atArgv k := by
  rw [numericAt_eq hk]
  unfold numericOption
  cases argv[k + 1]?.filter usable with
  | some value => rfl
  | none => cases usable (arg.drop 2) <;> rfl

omit [DecidableEq Path] in
theorem fileAt_eq_atArgv {argv : List CString} {k : Nat} (hk : k < argv.length)
    (sys : System D Path) (openFile : Files Path → Path → Option (Files Path))
    (set : CString → Settings D) (message : String) (o : OptionState D Path) :
    fileAt sys openFile (fun name files => { o with settings := set name, files }) message argv
        k o = (fileOption sys openFile set message argv[k + 1]? o).atArgv k := by
  rw [fileAt_eq hk]
  unfold fileOption
  cases argv[k + 1]? with
  | none => rfl
  | some name =>
    dsimp only
    cases openFile o.files (sys.locate name) <;> rfl

theorem serialOutputAt_eq_atArgv {argv : List CString} {k : Nat} (hk : k < argv.length)
    (sys : System D Path) (o : OptionState D Path) :
    fileAt sys (fun files => fopen sys.toHost files .truncate)
      (fun name files => {
        settings := { o.settings with serialFw := some name }
        files
        truncated := sys.locate name :: o.truncated })
      "not a valid serial output file\n" argv k o =
      (serialOutputOption sys argv[k + 1]? o).atArgv k := by
  rw [fileAt_eq hk]
  unfold serialOutputOption fileOption
  cases argv[k + 1]? with
  | none => rfl
  | some name =>
    dsimp only
    cases fopen sys.toHost o.files .truncate (sys.locate name) <;> rfl

/-- The turn at `argv[k]` is the turn on the argument and the one after it. -/
theorem turnAt_eq (sys : System D Path) {argv : List CString} {k : Nat} (hk : k < argv.length)
    (arg : CString) (o : OptionState D Path) :
    turnAt sys argv k arg o = (optionTurn sys arg argv[k + 1]? o).atArgv k := by
  have hnumeric := fun usable set message =>
    numericAt_eq_atArgv hk usable set message arg o
  have hfile := fun openFile set message => fileAt_eq_atArgv hk sys openFile set message o
  unfold turnAt optionTurn
  refine Turn.atArgv_ite rfl ?_
  refine Turn.atArgv_ite (hnumeric _ _ _) ?_
  refine Turn.atArgv_ite (hnumeric _ _ _) ?_
  refine Turn.atArgv_ite (hnumeric _ _ _) ?_
  refine Turn.atArgv_ite (hfile _ _ _) ?_
  refine Turn.atArgv_ite (hfile _ _ _) ?_
  refine Turn.atArgv_ite (serialOutputAt_eq_atArgv hk sys o) ?_
  refine Turn.atArgv_ite rfl ?_
  refine Turn.atArgv_ite (hfile _ _ _) ?_
  refine Turn.atArgv_ite (hfile _ _ _) ?_
  refine Turn.atArgv_ite (hfile _ _ _) ?_
  exact Turn.atArgv_ite rfl rfl

/-! ### What an option takes -/

/-- The argument is an option that takes a number. -/
abbrev NumberOption (arg : CString) : Prop :=
  arg.getD 1 0 ∈ ['s', 'd', 'x'].map Char.toUInt8

/-- The argument is an option that takes a file. -/
abbrev FileOption (arg : CString) : Prop :=
  arg.getD 1 0 ∈ ['p', 'i', 'o', 'c', 'n', 'b'].map Char.toUInt8

/-- The number that `value` starts with is one that the option takes. -/
def usableNumber (sys : System D Path) (letter : UInt8) (value : CString) : Bool :=
  if letter = 's'.toUInt8 then 0 < atoi value && atoi value ≤ 16
  else if letter = 'd'.toUInt8 then strtol value 0 != 0
  else !sys.isZero (sys.strtod value)

/-- The files after the option has opened the file of that name. -/
def openOption (sys : System D Path) (letter : UInt8) (files : Files Path) (name : CString) :
    Option (Files Path) :=
  if letter = 'p'.toUInt8 then fopen sys.toHost files .append (sys.locate name)
  else if letter = 'i'.toUInt8 then fopen sys.toHost files .update (sys.locate name)
  else if letter = 'o'.toUInt8 then fopen sys.toHost files .truncate (sys.locate name)
  else if letter = 'c'.toUInt8 then fopen sys.toHost files .read (sys.locate name)
  else openUpdate sys.toHost files (sys.locate name)

/-- How a turn leaves the arguments and the files: whether it has taken a value, or `none` for
an error return. -/
def Turn.outline : Turn D Path → Except Fault (Option (Bool × Files Path))
  | .fault f => .error f
  | .error _ _ => .ok none
  | .one o => .ok (some (false, o.files))
  | .two o => .ok (some (true, o.files))

/-- The outline of a turn that takes a file. -/
def fileOutline (opened : CString → Option (Files Path)) :
    Option CString → Except Fault (Option (Bool × Files Path))
  | none => .error .pastArgv
  | some name => .ok ((opened name).map (true, ·))

/-- The outline of a turn, by the kind of its option. -/
def optionOutline (sys : System D Path) (arg : CString) (next : Option CString)
    (files : Files Path) : Except Fault (Option (Bool × Files Path)) :=
  if NumberOption arg then
    if next.any (usableNumber sys (arg.getD 1 0)) then .ok (some (true, files))
    else if usableNumber sys (arg.getD 1 0) (arg.drop 2) then .ok (some (false, files))
    else .ok none
  else if FileOption arg then fileOutline (openOption sys (arg.getD 1 0) files) next
  else .ok (some (false, files))

omit [DecidableEq Path] in
theorem numericOption_outline (usable : CString → Bool) (set : CString → Settings D)
    (message : String) (arg : CString) (next : Option CString) (o : OptionState D Path) :
    (numericOption usable set message arg next o).outline =
      if next.any usable then .ok (some (true, o.files))
      else if usable (arg.drop 2) then .ok (some (false, o.files))
      else .ok none := by
  have hattached : (if usable (arg.drop 2) then
      Turn.one { o with settings := set (arg.drop 2) } else .error message o).outline =
      if usable (arg.drop 2) then .ok (some (false, o.files)) else .ok none := by
    split <;> rfl
  unfold numericOption
  cases next with
  | none => exact hattached
  | some value =>
    by_cases h : usable value = true
    · simp only [Option.filter_some, Option.any_some, h, if_true, Turn.outline]
    · simp only [Option.filter_some, Option.any_some, h, if_false, Bool.false_eq_true, hattached]

omit [DecidableEq Path] in
theorem fileOption_outline (sys : System D Path)
    (openFile : Files Path → Path → Option (Files Path)) (set : CString → Settings D)
    (message : String) (next : Option CString) (o : OptionState D Path) :
    (fileOption sys openFile set message next o).outline =
      fileOutline (fun name => openFile o.files (sys.locate name)) next := by
  unfold fileOption
  cases next with
  | none => rfl
  | some name =>
    dsimp only [fileOutline]
    cases openFile o.files (sys.locate name) <;> rfl

theorem serialOutputOption_outline (sys : System D Path) (next : Option CString)
    (o : OptionState D Path) :
    (serialOutputOption sys next o).outline =
      fileOutline (fun name => fopen sys.toHost o.files .truncate (sys.locate name)) next := by
  unfold serialOutputOption fileOption
  cases next with
  | none => rfl
  | some name =>
    dsimp only [fileOutline]
    cases fopen sys.toHost o.files .truncate (sys.locate name) <;> rfl

/-- Every turn goes by the kind of its option. -/
theorem optionTurn_outline (sys : System D Path) (arg : CString) (next : Option CString)
    (o : OptionState D Path) :
    (optionTurn sys arg next o).outline = optionOutline sys arg next o.files := by
  unfold optionTurn optionOutline NumberOption FileOption
  generalize arg.getD 1 0 = letter
  by_cases hnumber : letter ∈ ['s', 'd', 'x'].map Char.toUInt8
  · simp only [List.map_cons, List.map_nil, List.mem_cons, List.not_mem_nil, or_false] at hnumber
    obtain rfl | rfl | rfl := hnumber
    · exact numericOption_outline _ _ _ _ _ _
    · exact numericOption_outline _ _ _ _ _ _
    · exact numericOption_outline _ _ _ _ _ _
  by_cases hfile : letter ∈ ['p', 'i', 'o', 'c', 'n', 'b'].map Char.toUInt8
  · simp only [List.map_cons, List.map_nil, List.mem_cons, List.not_mem_nil, or_false] at hfile
    obtain rfl | rfl | rfl | rfl | rfl | rfl := hfile
    · exact fileOption_outline sys (fun files => fopen sys.toHost files .append) _ _ next o
    · exact fileOption_outline sys (fun files => fopen sys.toHost files .update) _ _ next o
    · exact serialOutputOption_outline sys next o
    · exact fileOption_outline sys (fun files => fopen sys.toHost files .read) _ _ next o
    · exact fileOption_outline sys (openUpdate sys.toHost) _ _ next o
    · exact fileOption_outline sys (openUpdate sys.toHost) _ _ next o
  rw [if_neg hnumber, if_neg hfile]
  simp only [List.map_cons, List.map_nil, List.mem_cons, List.not_mem_nil, or_false,
    not_or] at hnumber hfile
  obtain ⟨hs, hd, hx⟩ := hnumber
  obtain ⟨hp, hi, ho, hc, hn, hb⟩ := hfile
  simp only [hs, hd, hx, hp, hi, ho, hc, hn, hb, if_false]
  split
  · rfl
  · split
    · rfl
    · split <;> rfl

/-! ### What a turn tells -/

omit [DecidableEq Path] in
/-- A turn that takes one argument and keeps the files. -/
theorem Turn.outline_eq_one {t : Turn D Path} {files : Files Path}
    (h : t.outline = .ok (some (false, files))) : ∃ o', t = .one o' ∧ o'.files = files := by
  cases t with
  | fault f => cases h
  | error message o => cases h
  | one o' => exact ⟨o', rfl, (Prod.mk.inj (Option.some.inj (Except.ok.inj h))).2⟩
  | two o' => cases h

omit [DecidableEq Path] in
/-- A turn that takes two arguments. -/
theorem Turn.outline_eq_two {t : Turn D Path} {files : Files Path}
    (h : t.outline = .ok (some (true, files))) : ∃ o', t = .two o' ∧ o'.files = files := by
  cases t with
  | fault f => cases h
  | error message o => cases h
  | one o' => cases h
  | two o' => exact ⟨o', rfl, (Prod.mk.inj (Option.some.inj (Except.ok.inj h))).2⟩

omit [DecidableEq Path] in
/-- A file option that does not fail has opened the file it takes. -/
theorem fileOutline_eq_some {opened : CString → Option (Files Path)} {next : Option CString}
    {value : Bool} {files : Files Path}
    (h : fileOutline opened next = .ok (some (value, files))) :
    value = true ∧ ∃ name, next = some name ∧ opened name = some files := by
  cases next with
  | none => cases h
  | some name =>
    have hmap : (opened name).map (true, ·) = some (value, files) := Except.ok.inj h
    obtain ⟨files', hopen, heq⟩ := Option.map_eq_some_iff.mp hmap
    obtain ⟨rfl, rfl⟩ := Prod.mk.inj heq
    exact ⟨rfl, name, rfl, hopen⟩

/-- A fault is that of a file option at the end. -/
theorem optionTurn_fault {sys : System D Path} {arg : CString} {next : Option CString}
    {o : OptionState D Path} {f : Fault} (h : optionTurn sys arg next o = .fault f) :
    f = .pastArgv ∧ FileOption arg ∧ next = none := by
  have houtline := optionTurn_outline sys arg next o
  rw [h, Turn.outline] at houtline
  unfold optionOutline at houtline
  split at houtline
  · split at houtline
    · cases houtline
    · split at houtline <;> cases houtline
  · split at houtline
    next hfile =>
      cases next with
      | none => exact ⟨Except.error.inj houtline, hfile, rfl⟩
      | some name => cases houtline
    next => cases houtline

/-- What a turn takes when it takes one argument. -/
theorem optionTurn_one {sys : System D Path} {arg : CString} {next : Option CString}
    {o o' : OptionState D Path} (h : optionTurn sys arg next o = .one o') :
    o'.files = o.files ∧
      (NumberOption arg ∧ next.any (usableNumber sys (arg.getD 1 0)) = false ∧
          usableNumber sys (arg.getD 1 0) (arg.drop 2) = true ∨
        ¬ NumberOption arg ∧ ¬ FileOption arg) := by
  have houtline := optionTurn_outline sys arg next o
  rw [h, Turn.outline] at houtline
  unfold optionOutline at houtline
  split at houtline
  next hnumber =>
    split at houtline
    · cases houtline
    next hnext =>
      split at houtline
      next hattached =>
        have hfiles := (Prod.mk.inj (Option.some.inj (Except.ok.inj houtline))).2
        exact ⟨hfiles, .inl ⟨hnumber, Bool.eq_false_iff.mpr hnext, hattached⟩⟩
      next => cases houtline
  next hnumber =>
    split at houtline
    next => cases (fileOutline_eq_some houtline.symm).1
    next hfile =>
      have hfiles := (Prod.mk.inj (Option.some.inj (Except.ok.inj houtline))).2
      exact ⟨hfiles, .inr ⟨hnumber, hfile⟩⟩

/-- What a turn takes when it takes two arguments. -/
theorem optionTurn_two {sys : System D Path} {arg : CString} {next : Option CString}
    {o o' : OptionState D Path} (h : optionTurn sys arg next o = .two o') :
    ∃ value, next = some value ∧
      (NumberOption arg ∧ usableNumber sys (arg.getD 1 0) value = true ∧ o'.files = o.files ∨
        FileOption arg ∧ openOption sys (arg.getD 1 0) o.files value = some o'.files) := by
  have houtline := optionTurn_outline sys arg next o
  rw [h, Turn.outline] at houtline
  unfold optionOutline at houtline
  split at houtline
  next hnumber =>
    split at houtline
    next hnext =>
      obtain ⟨value, rfl, husable⟩ := (Option.any_eq_true _ _).mp hnext
      have hfiles := (Prod.mk.inj (Option.some.inj (Except.ok.inj houtline))).2
      exact ⟨value, rfl, .inl ⟨hnumber, husable, hfiles⟩⟩
    next => split at houtline <;> cases houtline
  next =>
    split at houtline
    next hfile =>
      obtain ⟨-, name, hnext, hopen⟩ := fileOutline_eq_some houtline.symm
      exact ⟨name, hnext, .inr ⟨hfile, hopen⟩⟩
    next => cases houtline

/-- A fault of the turn at `argv[k]` is that of a file option at the end. -/
theorem turnAt_fault {sys : System D Path} {argv : List CString} {k : Nat} {arg : CString}
    {o : OptionState D Path} {f : ArgvFault} (hk : k < argv.length)
    (h : turnAt sys argv k arg o = .error f) :
    optionTurn sys arg argv[k + 1]? o = .fault .pastArgv ∧ f = .past (argv.length + 1) := by
  rw [turnAt_eq sys hk] at h
  cases hturn : optionTurn sys arg argv[k + 1]? o with
  | fault f' =>
    obtain ⟨rfl, -, hnext⟩ := optionTurn_fault hturn
    have hlast : argv.length = k + 1 := by
      have := List.getElem?_eq_none_iff.mp hnext
      omega
    rw [hturn] at h
    rw [hlast]
    exact ⟨rfl, (Except.error.inj h).symm⟩
  | error message o₁ => rw [hturn] at h; cases h
  | one o₁ => rw [hturn] at h; cases h
  | two o₁ => rw [hturn] at h; cases h

/-- An error return of the turn at `argv[k]`. -/
theorem turnAt_error {sys : System D Path} {argv : List CString} {k : Nat} {arg : CString}
    {o o' : OptionState D Path} {message : String} (hk : k < argv.length)
    (h : turnAt sys argv k arg o = .ok (.error message o')) :
    optionTurn sys arg argv[k + 1]? o = .error message o' := by
  rw [turnAt_eq sys hk] at h
  cases hturn : optionTurn sys arg argv[k + 1]? o with
  | fault f => rw [hturn, (optionTurn_fault hturn).1] at h; cases h
  | error message₁ o₁ => rw [hturn] at h; cases h; rfl
  | one o₁ => rw [hturn] at h; cases h
  | two o₁ => rw [hturn] at h; cases h

/-- The turn at `argv[k]` moves on to an argument or to the terminating `NULL`. -/
theorem turnAt_next {sys : System D Path} {argv : List CString} {k : Nat} {arg : CString}
    {o o' : OptionState D Path} {value : Bool} (hk : k < argv.length)
    (h : turnAt sys argv k arg o = .ok (.next value o')) :
    optionTurn sys arg argv[k + 1]? o = (if value then .two o' else .one o') ∧
      k + 1 + value.toNat ≤ argv.length := by
  rw [turnAt_eq sys hk] at h
  cases hturn : optionTurn sys arg argv[k + 1]? o with
  | fault f => rw [hturn, (optionTurn_fault hturn).1] at h; cases h
  | error message o₁ => rw [hturn] at h; cases h
  | one o₁ =>
    rw [hturn] at h
    cases h
    exact ⟨rfl, hk⟩
  | two o₁ =>
    rw [hturn] at h
    cases h
    obtain ⟨value, hvalue, -⟩ := optionTurn_two hturn
    exact ⟨rfl, (List.getElem?_eq_some_iff.mp hvalue).1⟩

/-! ### The loop on the remaining arguments -/

/-- How the loop ends, as the loop on the remaining arguments says it. -/
def LoopEnd.parsed (argv : List CString) : LoopEnd D Path → Parsed D Path
  | .fault _ => .fault .pastArgv
  | .error message o => .error message o
  | .done k o => .done o argv[k]?

/-- A turn of the loop on the remaining arguments. -/
theorem parseOptions_drop (sys : System D Path) {argv : List CString} {k : Nat} {arg : CString}
    (harg : argv[k]? = some arg) (dash : arg.head? = some '-'.toUInt8)
    (o : OptionState D Path) :
    parseOptions sys (argv.drop k) o =
      match optionTurn sys arg argv[k + 1]? o with
      | .fault f => .fault f
      | .error message o => .error message o
      | .one o => parseOptions sys (argv.drop (k + 1)) o
      | .two o => parseOptions sys (argv.drop (k + 2)) o := by
  obtain ⟨hk, rfl⟩ := List.getElem?_eq_some_iff.mp harg
  rw [List.drop_eq_getElem_cons hk, parseOptions, if_pos dash, List.head?_drop]
  cases optionTurn sys argv[k] argv[k + 1]? o with
  | fault f => rfl
  | error message o => rfl
  | one o => rfl
  | two o =>
    have htail : argv.drop (k + 2) = (argv.drop (k + 1)).tail := by rw [List.tail_drop]
    rw [htail]
    cases argv.drop (k + 1) <;> rfl

/-- The loop at `argv[k]` is the loop on the arguments from `argv[k]` on. -/
theorem parseOptions_eq (sys : System D Path) (argv : List CString) (k : Nat)
    (o : OptionState D Path) (hk : k ≤ argv.length) :
    parseOptions sys (argv.drop k) o = (optionLoop sys argv k o).parsed argv := by
  fun_induction optionLoop sys argv k o with
  | case1 k o f hat =>
    rw [argvAt, if_pos hk] at hat
    cases hat
  | case2 k o hat =>
    rw [argvAt, if_pos hk] at hat
    have hnone : argv[k]? = none := Except.ok.inj hat
    rw [List.drop_eq_nil_of_le (List.getElem?_eq_none_iff.mp hnone), LoopEnd.parsed, hnone]
    rfl
  | case3 k o arg hat dash f hturn =>
    obtain ⟨harg, hlt⟩ := argvAt_eq_some hat
    rw [parseOptions_drop sys harg dash, (turnAt_fault hlt hturn).1]
    rfl
  | case4 k o arg hat dash message o₁ hturn =>
    obtain ⟨harg, hlt⟩ := argvAt_eq_some hat
    rw [parseOptions_drop sys harg dash, turnAt_error hlt hturn]
    rfl
  | case5 k o arg hat dash value o₁ hturn ih =>
    obtain ⟨harg, hlt⟩ := argvAt_eq_some hat
    obtain ⟨hoption, hbound⟩ := turnAt_next hlt hturn
    rw [parseOptions_drop sys harg dash, hoption]
    cases value with
    | false => exact ih hbound
    | true => exact ih hbound
  | case6 k o arg hat dash =>
    obtain ⟨harg, hlt⟩ := argvAt_eq_some hat
    have hget : argv[k] = arg := (List.getElem?_eq_some_iff.mp harg).2
    rw [List.drop_eq_getElem_cons hlt, hget, parseOptions_operand sys _ _ dash, LoopEnd.parsed,
      harg]

/-- The one fault of the loop is to look behind the terminating `NULL`. -/
theorem optionLoop_fault_eq {sys : System D Path} {argv : List CString} {k : Nat}
    {o : OptionState D Path} {f : ArgvFault} (hk : k ≤ argv.length)
    (h : optionLoop sys argv k o = .fault f) : f = .past (argv.length + 1) := by
  fun_induction optionLoop sys argv k o with
  | case1 k o f' hat =>
    rw [argvAt, if_pos hk] at hat
    cases hat
  | case2 k o hat => cases h
  | case3 k o arg hat dash f' hturn =>
    obtain rfl := LoopEnd.fault.inj h
    exact (turnAt_fault (argvAt_eq_some hat).2 hturn).2
  | case4 k o arg hat dash message o₁ hturn => cases h
  | case5 k o arg hat dash value o₁ hturn ih =>
    exact ih (turnAt_next (argvAt_eq_some hat).2 hturn).2 h
  | case6 k o arg hat dash => cases h

end Kyacopycat
