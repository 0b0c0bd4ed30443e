import Kyacopycat.Persistence

/-!
Truncated images.

`fread` of one large item reads straight into the array of the machine. When the file is
shorter than the item, `main` warns that it assumes a new file, but the bytes that were read
stay in the array.

* `truncated_images_iff`: which truncated files are really treated as new ones.
-/

namespace Kyacopycat

open Stdio

variable {D Path : Type} [DecidableEq Path] {n : Nat}

/-- The warnings of `main` in the loop. -/
theorem start_warnings {sys : System D Path} {ui : Ui} {args : List CString} {files : Files Path}
    {sdl : Option SdlFailure} {l : Launch D Path n} (h : start sys ui args files sdl = .loop l) :
    l.warnings =
      (if (readImage (m := 8192) sys l.options l.options.settings.svramF).2 then []
        else ["can't read svram, assuming new file\n"]) ++
      (if l.options.settings.ramF = none ∨ l.complete then []
        else ["can't read main ram, assuming new file\n"]) := by
  obtain ⟨o, rom, h⟩ := start_eq_loop h
  unfold loadImages at h
  split at h
  · cases h
  dsimp only at h
  split at h
  · cases h
  split at h
  · cases h
  · cases h
    rfl

/-- A cold boot requests no level 7 interrupt. -/
theorem boot_cold {ui : Ui} (hn : videoBytes ≤ n) {l : Loaded n} {s₀ : Running n}
    (h : boot ui l false = some s₀) : s₀.core.cpu.nmiPending = 0 := by
  obtain ⟨s, hboot, booted⟩ := boot_booted ui hn l false
  obtain rfl := Option.some.inj (hboot.symm.trans h)
  exact booted.nmiPending

/-- `main` gets to the loop with a svram file too short for the svram. -/
theorem start_truncated_svram {sys : System D Path} {ui : Ui} {args : List CString}
    {files : Files Path} {sdl : Option SdlFailure} {l : Launch D Path n}
    (h : start sys ui args files sdl = .loop l) {name : CString}
    (hname : l.options.settings.svramF = some name)
    (short : (l.options.contents sys name).length < 8192) :
    "can't read svram, assuming new file\n" ∈ l.warnings ∧
      (l.loaded.svram = CArray.fill 0 ↔ ∀ b ∈ l.options.contents sys name, b = 0) := by
  have hread : readImage (m := 8192) sys l.options l.options.settings.svramF
      = ((CArray.fill 0).ofBytes (l.options.contents sys name), false) := by
    rw [hname, readImage, readItem, decide_eq_false (by omega)]
  rw [start_warnings h, (start_images h).1, hread]
  exact ⟨by simp, CArray.ofBytes_fill_iff 0 (Nat.le_of_lt short)⟩

/-- `main` gets to the loop with a RAM file too short for the RAM. -/
theorem start_truncated_ram {sys : System D Path} {ui : Ui} {args : List CString}
    {files : Files Path} {sdl : Option SdlFailure} {l : Launch D Path n}
    (h : start sys ui args files sdl = .loop l) {name : CString}
    (hname : l.options.settings.ramF = some name)
    (short : (l.options.contents sys name).length < n) :
    "can't read main ram, assuming new file\n" ∈ l.warnings ∧ l.complete = false ∧
      (l.loaded.mainRam = CArray.fill 0 ↔ ∀ b ∈ l.options.contents sys name, b = 0) := by
  have himage := (start_images h).2
  rw [hname, Option.map_some, loadRam, decide_eq_false (by omega), Prod.mk.injEq] at himage
  obtain ⟨hram, hcomplete⟩ := himage
  rw [start_warnings h, hname, hcomplete, hram]
  exact ⟨by simp, rfl, CArray.ofBytes_fill_iff 0 (Nat.le_of_lt short)⟩

/-- **When a truncated image is treated as a new one.** Whenever `main` gets to the loop with
an image file that is too short, it has warned that it assumes a new file, and after a short
RAM image it requests no warm boot. The memory is the blank one of a new file exactly when all
the bytes that the file does have are zero. -/
theorem truncated_images_iff {sys : System D Path} {ui : Ui} {args : List CString}
    {files : Files Path} {sdl : Option SdlFailure} {l : Launch D Path ramSize}
    (h : start sys ui args files sdl = .loop l) :
    (∀ name, l.options.settings.svramF = some name →
      (l.options.contents sys name).length < 8192 →
        "can't read svram, assuming new file\n" ∈ l.warnings ∧
          (l.loaded.svram = CArray.fill 0 ↔ ∀ b ∈ l.options.contents sys name, b = 0)) ∧
    (∀ name, l.options.settings.ramF = some name →
      (l.options.contents sys name).length < ramSize →
        "can't read main ram, assuming new file\n" ∈ l.warnings ∧
          (∀ s₀, boot ui l.loaded l.complete = some s₀ → s₀.core.cpu.nmiPending = 0) ∧
          (l.loaded.mainRam = CArray.fill 0 ↔ ∀ b ∈ l.options.contents sys name, b = 0)) := by
  constructor
  · intro name hname short
    exact start_truncated_svram h hname short
  · intro name hname short
    obtain ⟨hwarning, hcomplete, hblank⟩ := start_truncated_ram h hname short
    refine ⟨hwarning, ?_, hblank⟩
    intro s₀ hboot
    rw [hcomplete] at hboot
    exact boot_cold (by decide) hboot

/-! ### A file of one byte -/

/-- A blank ROM, and a svram file of the single byte 1. -/
def oneByteFiles : Files CString :=
  Function.update (Function.update (fun _ => none) romFile (some (List.replicate 262144 0)))
    svFile (some [1])

theorem start_oneByte : ∃ l : Launch Unit CString ramSize,
    start .permissive .xlib memoryArgs oneByteFiles none = .loop l ∧
      l.options.settings.svramF = some svFile ∧
      l.options.contents .permissive svFile = [1] := by
  have hsv : openUpdate System.permissive.toHost oneByteFiles svFile = some oneByteFiles := rfl
  have hram : openUpdate System.permissive.toHost oneByteFiles ramFile
      = some (Function.update oneByteFiles ramFile (some [])) := rfl
  obtain ⟨l, hstart, hname, -, -, hfiles, -, -⟩ := start_permissive hsv hram rfl
  refine ⟨l, hstart, hname, ?_⟩
  rw [OptionState.contents, hfiles]
  rfl

/-- The machine starts with the byte in its svram. -/
theorem truncated_images_oneByte : ∃ l : Launch Unit CString ramSize,
    start .permissive .xlib memoryArgs oneByteFiles none = .loop l ∧
      "can't read svram, assuming new file\n" ∈ l.warnings ∧ l.loaded.svram ≠ CArray.fill 0 := by
  obtain ⟨l, hstart, hname, hcontents⟩ := start_oneByte
  obtain ⟨hwarning, hiff⟩ := (truncated_images_iff hstart).1 svFile hname (by simp [hcontents])
  refine ⟨l, hstart, hwarning, fun hblank => ?_⟩
  have hone := hiff.mp hblank 1 (by simp [hcontents])
  exact absurd hone (by decide)

/-- So not every truncated image is treated as a new one. -/
theorem not_truncated_images_new :
    ¬ ∀ (sys : System Unit CString) ui args files sdl (l : Launch Unit CString ramSize),
      start sys ui args files sdl = .loop l → ∀ name, l.options.settings.svramF = some name →
        (l.options.contents sys name).length < 8192 → l.loaded.svram = CArray.fill 0 := by
  intro all
  obtain ⟨l, hstart, hname, hcontents⟩ := start_oneByte
  have short : (l.options.contents .permissive svFile).length < 8192 := by simp [hcontents]
  have hblank := all .permissive .xlib memoryArgs oneByteFiles none l hstart svFile hname short
  have hone := (start_truncated_svram hstart hname short).2.mp hblank 1 (by simp [hcontents])
  exact absurd hone (by decide)

end Kyacopycat
