import Kyacopycat.Options
import Kyacopycat.WarmBoot

/-!
Persistence: the images that `main` loads before the loop and saves after it.

`start` is `main` up to the loop and `saveImages` what it writes after it. A `Session` is a
run of the emulator from its start until it leaves the loop.

* `start_spares`: up to the loop no file that exists changes, other than those `-o` opens.
* `saveImages_svram`, `saveImages_ram`: the saved files start with the images, whatever was
  in them before.
* `persistence`: the error returns of `main` spare the files, and a start after a session
  finds the memory as the session left it.
-/

namespace Kyacopycat

open Run Stdio

variable {D Path : Type} [DecidableEq Path] {n : Nat}

/-! ### Loading -/

/-- What `main` brings into the loop. -/
structure Launch (D Path : Type) (n : Nat) where
  options : OptionState D Path
  loaded : Loaded n
  /-- The RAM image was complete. -/
  complete : Bool
  warnings : List String

/-- How `main` gets to the loop, or does not. -/
inductive Start (D Path : Type) (n : Nat) where
  | fault (f : Fault)
  | error (message : String) (o : OptionState D Path)
  | loop (l : Launch D Path n)

/-- The error returns of the SDL build. -/
inductive SdlFailure where
  | window
  | renderer
  | texture
  deriving DecidableEq, Repr

def SdlFailure.message : SdlFailure → String
  | .window => "SDL window"
  | .renderer => "SDL renderer"
  | .texture => "SDL texture"

/-- The bytes of the file of a stream. -/
def OptionState.contents (sys : System D Path) (o : OptionState D Path) (name : CString) :
    List UInt8 :=
  (o.files (sys.locate name)).getD []

/-- Read one item into an array of zeros from a stream, if it is open. -/
def readImage {m : Nat} (sys : System D Path) (o : OptionState D Path) (stream : Option CString) :
    CArray UInt8 m × Bool :=
  match stream with
  | none => (CArray.fill 0, true)
  | some name => readItem (CArray.fill 0) (o.contents sys name)

/-- `main` from the option loop to the window. -/
def loadImages (sys : System D Path) (o : OptionState D Path) (rom : CString) : Start D Path n :=
  match fopen sys.toHost o.files .read (sys.locate rom) with
  | none => .error "not a valid file\n" o
  | some files =>
    let o := { o with files }
    let (mainRom, romRead) := readImage sys o (some rom)
    let (svrom, svromRead) := readImage sys o o.settings.svromF
    let (svram, svramRead) := readImage sys o o.settings.svramF
    let (mainRam, complete) := loadRam (o.settings.ramF.map (o.contents sys))
    if !romRead then .error "can't read main rom\n" o
    else if !svromRead then .error "can't read svrom\n" o
    else .loop {
      options := o
      loaded := {
        mainRom, mainRam, svram, svrom
        dip := o.settings.dip
        printerF := o.settings.printerF.map fun _ => []
        serialFr := o.settings.serialFr.map (o.contents sys)
        serialFw := o.settings.serialFw.map fun _ => []
        translate := o.settings.translate }
      complete
      warnings :=
        (if svramRead then [] else ["can't read svram, assuming new file\n"]) ++
        (if o.settings.ramF = none ∨ complete then []
          else ["can't read main ram, assuming new file\n"]) }

/-- `main` up to the loop; `sdl` is what fails in opening the window, if anything does. -/
def start (sys : System D Path) (ui : Ui) (args : List CString) (files : Files Path)
    (sdl : Option SdlFailure) : Start D Path n :=
  if args = [] then .error "not enough arguments\n" (.initial sys files)
  else
    match parseOptions sys args (.initial sys files) with
    | .fault f => .fault f
    | .error message o => .error message o
    | .done _ none => .fault .nullPath
    | .done o (some rom) =>
      match loadImages sys o rom with
      | .fault f => .fault f
      | .error message o => .error message o
      | .loop l =>
        match ui, sdl with
        | .sdl, some failure => .error failure.message l.options
        | _, _ => .loop l

/-- The state at an error return, or in the loop. -/
def Start.state? : Start D Path n → Option (OptionState D Path)
  | .fault _ => none
  | .error _ o => some o
  | .loop l => some l.options

theorem loadImages_spares {sys : System D Path} {o o' : OptionState D Path} {rom : CString}
    (h : (loadImages (n := n) sys o rom).state? = some o') : o.Spares o' := by
  unfold loadImages at h
  split at h
  · exact Option.some.inj h ▸ .refl o
  next files hopen =>
    have hspares : o.Spares { o with files } := .of_files (fopen_keeps_all (by decide) hopen)
    dsimp only at h
    split at h
    · exact Option.some.inj h ▸ hspares
    split at h
    · exact Option.some.inj h ▸ hspares
    · exact Option.some.inj h ▸ hspares

/-- Up to the loop no file that exists changes, other than those that `-o` opens. -/
theorem start_spares {sys : System D Path} {ui : Ui} {args : List CString} {files : Files Path}
    {sdl : Option SdlFailure} {o : OptionState D Path}
    (h : (start (n := n) sys ui args files sdl).state? = some o) :
    (OptionState.initial sys files).Spares o := by
  have hparse : ∀ o, (parseOptions sys args (.initial sys files)).state? = some o →
      (OptionState.initial sys files).Spares o := fun _ => parseOptions_spares sys args
  unfold start at h
  split at h
  · exact Option.some.inj h ▸ .refl _
  split at h
  next => cases h
  next hparsed => exact Option.some.inj h ▸ hparse _ (by rw [hparsed]; rfl)
  next => cases h
  next o₁ rom hparsed =>
    have hoptions := hparse o₁ (by rw [hparsed]; rfl)
    split at h
    next => cases h
    next hload =>
      exact hoptions.trans (loadImages_spares (n := n) (by rw [hload]; exact h))
    next l hload =>
      have himages : o₁.Spares l.options := loadImages_spares (n := n) (by rw [hload]; rfl)
      have hloop := hoptions.trans himages
      split at h
      · exact Option.some.inj h ▸ hloop
      · exact Option.some.inj h ▸ hloop

theorem start_eq_loop {sys : System D Path} {ui : Ui} {args : List CString} {files : Files Path}
    {sdl : Option SdlFailure} {l : Launch D Path n} (h : start sys ui args files sdl = .loop l) :
    ∃ o rom, loadImages sys o rom = .loop l := by
  unfold start at h
  split at h
  · cases h
  split at h
  next => cases h
  next => cases h
  next => cases h
  next o rom _ =>
    split at h
    next => cases h
    next => cases h
    next l' hload =>
      split at h
      · cases h
      · exact ⟨o, rom, hload.trans h⟩

/-- The images in the loop are what the streams hold there. -/
theorem start_images {sys : System D Path} {ui : Ui} {args : List CString} {files : Files Path}
    {sdl : Option SdlFailure} {l : Launch D Path n}
    (h : start sys ui args files sdl = .loop l) :
    l.loaded.svram = (readImage sys l.options l.options.settings.svramF).1 ∧
      (l.loaded.mainRam, l.complete)
        = loadRam (l.options.settings.ramF.map (l.options.contents sys)) := by
  obtain ⟨o, rom, h⟩ := start_eq_loop h
  unfold loadImages at h
  split at h
  · cases h
  dsimp only at h
  split at h
  · cases h
  split at h
  · cases h
  · cases h
    exact ⟨rfl, rfl⟩

omit [DecidableEq Path] in
/-- A file whose bytes start with the elements of an array is loaded as that array. -/
theorem readImage_of_prefix {m : Nat} {sys : System D Path} {o : OptionState D Path}
    {name : CString} {a : CArray UInt8 m} {bytes : List UInt8}
    (file : o.files (sys.locate name) = some bytes) (image : a.toList <+: bytes) :
    readImage sys o (some name) = (a, true) := by
  rw [readImage, OptionState.contents, file]
  exact readItem_of_prefix image

theorem loadRam_of_prefix {a : CArray UInt8 n} {bytes : List UInt8} (image : a.toList <+: bytes) :
    loadRam (some bytes) = (a, true) :=
  readItem_of_prefix image

/-! ### Saving -/

/-- `main` after the loop: the images over the start of their files, and what the printer
stream still holds at the end of its own. The serial streams hold nothing back. -/
def saveImages (sys : System D Path) (settings : Settings D) (s : Machine n)
    (pending : List UInt8) (files : Files Path) : Files Path :=
  let files := match settings.svramF with
    | some name => rewrite files (sys.locate name) s.svram.toList
    | none => files
  let files := match settings.ramF with
    | some name => rewrite files (sys.locate name) s.mainRam.toList
    | none => files
  match settings.printerF with
  | some name => extend files (sys.locate name) pending
  | none => files

/-- The saved RAM file starts with the RAM, whatever was in it before. -/
theorem saveImages_ram {sys : System D Path} {settings : Settings D} (s : Machine n)
    (pending : List UInt8) (files : Files Path) {name : CString} (h : settings.ramF = some name) :
    ∃ bytes, saveImages sys settings s pending files (sys.locate name) = some bytes ∧
      s.mainRam.toList <+: bytes := by
  unfold saveImages
  simp only [h]
  cases settings.printerF with
  | none => exact rewrite_self _ _ _
  | some printer => exact prefix_extend (rewrite_self _ _ _) pending

/-- So does the saved svram file, unless it is the RAM file as well. -/
theorem saveImages_svram {sys : System D Path} {settings : Settings D} (s : Machine n)
    (pending : List UInt8) (files : Files Path) {name : CString} (h : settings.svramF = some name)
    (distinct : ∀ ram, settings.ramF = some ram → sys.locate name ≠ sys.locate ram) :
    ∃ bytes, saveImages sys settings s pending files (sys.locate name) = some bytes ∧
      s.svram.toList <+: bytes := by
  unfold saveImages
  simp only [h]
  have hsaved := rewrite_self files (sys.locate name) s.svram.toList
  cases hram : settings.ramF with
  | none =>
    cases settings.printerF with
    | none => exact hsaved
    | some printer => exact prefix_extend hsaved pending
  | some ram =>
    have hkept := rewrite_of_ne (rewrite files (sys.locate name) s.svram.toList)
      (distinct ram hram) s.mainRam.toList
    rw [← hkept] at hsaved
    cases settings.printerF with
    | none => exact hsaved
    | some printer => exact prefix_extend hsaved pending

/-! ### Sessions -/

/-- A run of the emulator, from its start until it leaves the loop. -/
structure Session (D Path : Type) [DecidableEq Path] (n : Nat) where
  sys : System D Path
  ui : Ui
  ops : Opcodes
  args : List CString
  /-- the files before the start -/
  files : Files Path
  sdl : Option SdlFailure
  launch : Launch D Path n
  starts : start sys ui args files sdl = .loop launch
  entered : Running n
  enters : boot ui launch.loaded launch.complete = some entered
  steps : List RunStep
  last : Running n
  runs : run (Running.step ui ops) entered steps = some last
  left : last.phase = .left
  /-- the files when the loop has ended, whatever has become of them until then -/
  filesAtEnd : Files Path
  /-- what the printer stream has not written to its file by then -/
  pending : List UInt8

namespace Session

variable (x : Session D Path n)

/-- The settings that the options of the session have made. -/
def settings : Settings D := x.launch.options.settings

/-- The machine when the loop has ended. -/
def machine : Machine n := x.last.core.machine

/-- The files that the session leaves. -/
def saved : Files Path := saveImages x.sys x.settings x.machine x.pending x.filesAtEnd

end Session

/-- A warm boot requests a level 7 interrupt. -/
theorem boot_nmiPending {ui : Ui} (hn : videoBytes ≤ n) {l : Loaded n} {s₀ : Running n}
    (h : boot ui l true = some s₀) : s₀.core.cpu.nmiPending = 1 := by
  obtain ⟨s, hboot, booted⟩ := boot_booted ui hn l true
  obtain rfl := Option.some.inj (hboot.symm.trans h)
  exact booted.nmiPending

/-- What an existing file holds reaches the loop, unless `-o` has opened it. -/
theorem start_keeps {sys : System D Path} {ui : Ui} {args : List CString} {files : Files Path}
    {sdl : Option SdlFailure} {l : Launch D Path n} (h : start sys ui args files sdl = .loop l)
    {path : Path} {bytes : List UInt8} (spared : path ∉ l.options.truncated)
    (file : files path = some bytes) : l.options.files path = some bytes :=
  (start_spares (n := n) (o := l.options) (by rw [h]; rfl)).files path bytes spared file

/-- Every error return of `main` leaves the bytes of the files that exist as they are, other
than those that `-o` has opened. A start after a session that reaches the loop, with the
same files and none of them opened by `-o`, has the svram and the RAM as the session left
them; it takes the RAM image for complete and requests the warm boot. -/
theorem persistence :
    (∀ (sys : System D Path) ui args files sdl message o,
      start (n := ramSize) sys ui args files sdl = .error message o →
        Keeps (· ∈ o.truncated) files o.files) ∧
    ∀ x : Session D Path ramSize,
      (∀ a b, x.settings.svramF = some a → x.settings.ramF = some b →
        x.sys.locate a ≠ x.sys.locate b) →
      ∀ (sys : System D Path) ui args sdl l, start sys ui args x.saved sdl = .loop l →
        (∀ a a', x.settings.svramF = some a → l.options.settings.svramF = some a' →
          sys.locate a' = x.sys.locate a → sys.locate a' ∉ l.options.truncated →
            l.loaded.svram = x.machine.svram) ∧
        (∀ b b', x.settings.ramF = some b → l.options.settings.ramF = some b' →
          sys.locate b' = x.sys.locate b → sys.locate b' ∉ l.options.truncated →
            l.loaded.mainRam = x.machine.mainRam ∧ l.complete = true ∧
              ∀ s₀, boot ui l.loaded l.complete = some s₀ → s₀.core.cpu.nmiPending = 1) := by
  constructor
  · intro sys ui args files sdl message o h
    exact (start_spares (n := ramSize) (by rw [h]; rfl)).files
  intro x distinct sys ui args sdl l h
  obtain ⟨hsvram, hram⟩ := start_images h
  constructor
  · intro a a' ha ha' same spared
    obtain ⟨bytes, hfile, himage⟩ := saveImages_svram x.machine x.pending x.filesAtEnd ha
      fun b hb => distinct a b ha hb
    have hloop := start_keeps h spared (by rw [same]; exact hfile)
    rw [hsvram, ha', readImage_of_prefix hloop himage]
  · intro b b' hb hb' same spared
    obtain ⟨bytes, hfile, himage⟩ := saveImages_ram x.machine x.pending x.filesAtEnd hb
    have hloop := start_keeps h spared (by rw [same]; exact hfile)
    rw [hb', Option.map_some, OptionState.contents, hloop, Option.getD_some,
      loadRam_of_prefix himage, Prod.mk.injEq] at hram
    obtain ⟨hmain, hcomplete⟩ := hram
    refine ⟨hmain, hcomplete, ?_⟩
    intro s₀ hboot
    rw [hcomplete] at hboot
    exact boot_nmiPending (by decide) hboot

/-! ### The serial output file -/

/-- A system that allows everything and has no floating point numbers. -/
def System.permissive : System Unit CString where
  permits := fun _ _ => true
  creates := fun _ => true
  truncate_update := fun _ _ => rfl
  locate := id
  strtod := fun _ => ()
  one := ()
  isZero := fun _ => true

/-- The file names `sv`, `ram` and `rom`. -/
def svFile : CString := ['s', 'v'].map Char.toUInt8

def ramFile : CString := ['r', 'a', 'm'].map Char.toUInt8

def romFile : CString := ['r', 'o', 'm'].map Char.toUInt8

/-- The arguments `-o sv -n sv rom`. -/
def sharedArgs : List CString :=
  [['-', 'o'].map Char.toUInt8, svFile, ['-', 'n'].map Char.toUInt8, svFile, romFile]

/-- With the svram file as serial output, the start that finds no ROM has emptied it. -/
theorem not_errors_spare_images :
    ¬ ∀ (sys : System Unit CString) ui args files sdl message o,
      start (n := ramSize) sys ui args files sdl = .error message o →
        ∀ name, o.settings.svramF = some name ∨ o.settings.ramF = some name →
          ∀ bytes, files (sys.locate name) = some bytes →
            o.files (sys.locate name) = some bytes := by
  intro all
  have hempty := all .permissive .xlib sharedArgs
    (Function.update (fun _ => none) svFile (some [1])) none _ _ rfl svFile (.inl rfl) [1] rfl
  exact absurd hempty (by decide)

/-! ### A session -/

/-- The arguments `-n sv -b ram rom`. -/
def memoryArgs : List CString :=
  [['-', 'n'].map Char.toUInt8, svFile, ['-', 'b'].map Char.toUInt8, ramFile, romFile]

theorem openUpdate_permissive (files : Files CString) (path : CString) :
    ∃ files', openUpdate System.permissive.toHost files path = some files' := by
  cases h : files path <;> simp [openUpdate, fopen, System.permissive, h]

/-- A readable ROM of the right size gets `main` to the window. -/
theorem loadImages_of_rom (sys : System D Path) (o : OptionState D Path) {rom : CString}
    {bytes : List UInt8} (file : o.files (sys.locate rom) = some bytes)
    (readable : sys.permits .read (sys.locate rom) = true) (full : 262144 ≤ bytes.length)
    (noSvrom : o.settings.svromF = none) :
    ∃ l : Launch D Path n, loadImages sys o rom = .loop l ∧ l.options = o ∧
      l.loaded.mainRom = (CArray.fill 0).ofBytes bytes := by
  have hopen : fopen sys.toHost o.files .read (sys.locate rom) = some o.files := by
    simp [fopen, file, readable]
  have hrom : readImage sys o (some rom)
      = ((CArray.fill 0 : CArray UInt8 262144).ofBytes bytes, decide (262144 ≤ bytes.length)) := by
    rw [readImage, OptionState.contents, file]
    rfl
  unfold loadImages
  rw [hopen]
  dsimp only
  rw [hrom, noSvrom, if_neg (by simp [full]), if_neg (by simp [readImage])]
  exact ⟨_, rfl, rfl, rfl⟩

/-- When the options and the images are in order, the Xlib build enters the loop. -/
theorem start_of_loaded {sys : System D Path} {args : List CString} {files : Files Path}
    {o : OptionState D Path} {rom : CString} {l : Launch D Path n} (hargs : args ≠ [])
    (hparse : parseOptions sys args (.initial sys files) = .done o (some rom))
    (hload : loadImages sys o rom = .loop l) : start sys .xlib args files none = .loop l := by
  rw [start, if_neg hargs]
  simp only [hparse, hload]

theorem ofBytes_zeros {m : Nat} :
    (CArray.fill 0 : CArray UInt8 m).ofBytes (List.replicate m 0) = CArray.fill 0 := by
  funext i
  simp [CArray.ofBytes, CArray.fill]

/-- With a ROM of zeros the permissive system gets to the loop. -/
theorem start_permissive {files files₁ files₂ : Files CString}
    (h₁ : openUpdate System.permissive.toHost files svFile = some files₁)
    (h₂ : openUpdate System.permissive.toHost files₁ ramFile = some files₂)
    (hrom : files₂ romFile = some (List.replicate 262144 0)) :
    ∃ l : Launch Unit CString ramSize, start .permissive .xlib memoryArgs files none = .loop l ∧
      l.options.settings.svramF = some svFile ∧ l.options.settings.ramF = some ramFile ∧
      l.options.settings.printerF = none ∧ l.options.files = files₂ ∧
      l.options.truncated = [] ∧ l.loaded.mainRom = CArray.fill 0 := by
  have hn := optionTurn_svram .permissive svFile (.initial .permissive files) h₁
  have hb := optionTurn_ram .permissive ramFile { OptionState.initial .permissive files with
    settings := { Settings.initial .permissive with svramF := some svFile }
    files := files₁ } h₂
  have hparse := (parseOptions_two (['-', 'b'].map Char.toUInt8 :: ramFile :: [romFile])
    (by decide) hn).trans ((parseOptions_two [romFile] (by decide) hb).trans
      (parseOptions_operand .permissive [] _ (by decide)))
  obtain ⟨l, hload, hoptions, hmain⟩ := loadImages_of_rom (n := ramSize) .permissive
    { OptionState.initial .permissive files with
      settings := { Settings.initial .permissive with svramF := some svFile, ramF := some ramFile }
      files := files₂ } hrom rfl (Nat.le_of_eq List.length_replicate.symm) rfl
  refine ⟨l, start_of_loaded (List.cons_ne_nil _ _) hparse hload, ?_⟩
  rw [hoptions, hmain, ofBytes_zeros]
  exact ⟨rfl, rfl, rfl, rfl, rfl, rfl⟩

/-- Handlers that use up the cycles of the slice. -/
def idleOpcodes : Opcodes where
  handler := fun _ => .modify
    ⟨fun c => { c with remainingCycles := 0 }, fun _ => rfl, fun _ h => h⟩ .done
  cycles := fun _ => 4

/-- On a blank ROM the emulator runs one instruction and then leaves the loop on a close
request. -/
theorem exists_run (l : Loaded ramSize) (blank : l.mainRom = CArray.fill 0) :
    ∃ s₀ r, boot .xlib l false = some s₀ ∧ run (Running.step .xlib idleOpcodes) s₀
      [.beginExecute, .instruction, .endSlice ⟨none, true⟩ false] = some r ∧ r.phase = .left := by
  obtain ⟨⟨⟨cpu, machine, log⟩, phase⟩, hboot, booted⟩ :=
    boot_booted .xlib (n := ramSize) (by decide) l false
  obtain rfl : phase = .call := booted.phase
  let core : Core ramSize := ⟨{ cpu with
    resetCycles := 0
    remainingCycles := 32728
    initialCycles := 32728 }, machine, log⟩
  have hbegin : beginExecute .xlib ⟨cpu, machine, log⟩ cpuCycles = some ⟨core, .loop⟩ :=
    beginExecute_of_check booted.resetCycles rfl (by decide)
      (m68kiCheckInterrupts_idle .xlib (s := core) booted.nmiPending booted.intLevel)
      booted.ready.stopped
  have haddress : (cpu.pc + 2 - 2) &&& cpu.addressMask = 0 := by
    rw [booted.ready.addressMask, UInt32.add_sub_cancel, booted.programCounter, blank]
    decide
  obtain ⟨⟨word, machine'⟩, hword⟩ := Option.isSome_iff_exists.mp
    ((m68kReadMemory_isSome_iff .word machine 0).mpr (by decide))
  obtain ⟨r, hinstruction, hreturned⟩ :
      ∃ r, executeInstruction .xlib idleOpcodes core = some r ∧ r.phase = .returned :=
    ⟨_, Option.bind_eq_some_iff.mpr ⟨_, Option.bind_eq_some_iff.mpr
      ⟨_, (congrArg (m68kReadMemory .word machine) haddress).trans hword, rfl⟩,
      Option.bind_eq_some_iff.mpr ⟨_, rfl, rfl⟩⟩, rfl⟩
  obtain ⟨core', phase⟩ := r
  obtain rfl : phase = .returned := hreturned
  exact ⟨_, _, hboot, Option.bind_eq_some_iff.mpr ⟨_, hbegin,
    Option.bind_eq_some_iff.mpr ⟨_, hinstruction, rfl⟩⟩, if_neg (by simp)⟩

/-- A session that starts without images, and leaves the ROM file alone. -/
theorem exists_blank_session : ∃ x : Session Unit CString ramSize,
    x.sys = .permissive ∧ x.settings.svramF = some svFile ∧ x.settings.ramF = some ramFile ∧
      x.saved romFile = some (List.replicate 262144 0) := by
  let files : Files CString :=
    Function.update (fun _ => none) romFile (some (List.replicate 262144 0))
  let files₁ := Function.update files svFile (some [])
  let files₂ := Function.update files₁ ramFile (some [])
  have hsvNew : openUpdate System.permissive.toHost files svFile = some files₁ := rfl
  have hramNew : openUpdate System.permissive.toHost files₁ ramFile = some files₂ := rfl
  obtain ⟨l, hstart, hsv, hram, hprinter, hfiles, -, hblank⟩ :=
    start_permissive hsvNew hramNew rfl
  have hcomplete : l.complete = false := by
    have himage := congrArg Prod.snd (start_images hstart).2
    rw [hram, Option.map_some, OptionState.contents, hfiles] at himage
    exact himage
  obtain ⟨s₀, r, hboot, hrun, hleft⟩ := exists_run l.loaded hblank
  let x : Session Unit CString ramSize := {
    sys := .permissive
    ui := .xlib
    ops := idleOpcodes
    args := memoryArgs
    files := files
    sdl := none
    launch := l
    starts := hstart
    entered := s₀
    enters := hcomplete ▸ hboot
    steps := _
    last := r
    runs := hrun
    left := hleft
    filesAtEnd := files₂
    pending := [] }
  refine ⟨x, rfl, hsv, hram, ?_⟩
  simp only [Session.saved, saveImages, Session.settings, x, hsv, hram, hprinter]
  exact (rewrite_of_ne _ (by decide) _).trans ((rewrite_of_ne _ (by decide) _).trans rfl)

/-- After that session the next start loads what it has saved. -/
theorem persistence_blank : ∃ (x : Session Unit CString ramSize) (l : Launch Unit CString ramSize),
    x.settings.svramF = some svFile ∧ x.settings.ramF = some ramFile ∧
      start .permissive .xlib memoryArgs x.saved none = .loop l ∧
      l.loaded.svram = x.machine.svram ∧ l.loaded.mainRam = x.machine.mainRam ∧
      l.complete = true := by
  obtain ⟨x, hsys, hsv, hram, hrom⟩ := exists_blank_session
  obtain ⟨saved₁, h₁⟩ := openUpdate_permissive x.saved svFile
  obtain ⟨saved₂, h₂⟩ := openUpdate_permissive saved₁ ramFile
  have hkept : saved₂ romFile = some (List.replicate 262144 0) :=
    openUpdate_keeps (fun _ => False) h₂ _ _ not_false
      (openUpdate_keeps (fun _ => False) h₁ _ _ not_false hrom)
  obtain ⟨l, hstart, hsv', hram', -, -, htruncated, -⟩ := start_permissive h₁ h₂ hkept
  have hspared : ∀ path, path ∉ l.options.truncated := by simp [htruncated]
  have hlocate : ∀ name, System.permissive.locate name = x.sys.locate name := by simp [hsys]
  obtain ⟨hsvram, hmain⟩ := persistence.2 x (fun a b ha hb => by
    obtain rfl := Option.some.inj (hsv.symm.trans ha)
    obtain rfl := Option.some.inj (hram.symm.trans hb)
    rw [← hlocate, ← hlocate]
    decide) .permissive .xlib memoryArgs none l hstart
  obtain ⟨hmemory, hcomplete, -⟩ := hmain ramFile ramFile hram hram' (hlocate _) (hspared _)
  exact ⟨x, l, hsv, hram, hstart, hsvram svFile svFile hsv hsv' (hlocate _) (hspared _), hmemory,
    hcomplete⟩

end Kyacopycat
