import Kyacopycat.Devices

/-!
The output streams: what the guest sends to the printer and to the serial port.

A byte written to a port's register is appended to the port's file. No other step of the guest
or of the main loop touches the files, so a file holds what was written to its register, in
order, whatever the widths of the writes. With `-t` the serial port turns each CR into LF on the
way out and each LF into CR on the way in.

* `output_exact`: the files after any run.
* `serial_link_exact_iff`: in which runs the serial output of one emulator is the serial input
  of another.
-/

namespace Kyacopycat

open Run

variable {n : Nat}

/-! ### Ports -/

/-- The registers whose bytes go to a file. -/
inductive Port where
  | printer
  | serial
  deriving DecidableEq, Repr

def Port.addr : Port → UInt32
  | .printer => 0x800004
  | .serial => 0x810007

/-- What has been put into the port's file; `none` when there is no file. -/
def Port.file (s : Machine n) : Port → Option (List UInt8)
  | .printer => s.printerF
  | .serial => s.serialFw

/-- The byte that goes to the file for a byte of the guest. -/
def Port.sent (translate c : UInt8) : Port → UInt8
  | .printer => c
  | .serial => if translate ≠ 0 ∧ c = 0x0D then 0x0A else c

/-- The bytes that byte writes send to the port. -/
def Port.output (p : Port) (ls : List (UInt32 × UInt8)) : List UInt8 :=
  ls.filterMap fun l => if l.1 = p.addr then some l.2 else none

/-- What the port's file holds after the guest has sent `cs`. -/
def Port.fileAfter (translate : UInt8) (p : Port) (cs : List UInt8) (file : Option (List UInt8)) :
    Option (List UInt8) :=
  file.map (· ++ cs.map (Port.sent translate · p))

section Port

variable {p : Port} {translate : UInt8}

@[simp] theorem Port.fileAfter_nil (file : Option (List UInt8)) :
    p.fileAfter translate [] file = file := by
  cases file <;> simp [Port.fileAfter]

theorem Port.fileAfter_append (cs ds : List UInt8) (file : Option (List UInt8)) :
    p.fileAfter translate (cs ++ ds) file
      = p.fileAfter translate ds (p.fileAfter translate cs file) := by
  cases file <;> simp [Port.fileAfter]

theorem Port.output_append (ls ms : List (UInt32 × UInt8)) :
    p.output (ls ++ ms) = p.output ls ++ p.output ms :=
  List.filterMap_append

theorem Port.output_cons (l : UInt32 × UInt8) (ls : List (UInt32 × UInt8)) :
    p.output (l :: ls) = (if l.1 = p.addr then [l.2] else []) ++ p.output ls := by
  by_cases h : l.1 = p.addr <;> simp [Port.output, h]

end Port

/-! ### Writes -/

/-- A register write appends to the file of its port. -/
theorem writeRegister_file (s : Machine n) (a : UInt32) (v : UInt8) (p : Port) :
    p.file (writeRegister s a v)
      = p.fileAfter s.translate (if a = p.addr then [v] else []) (p.file s) := by
  by_cases ha : a = p.addr
  · rw [if_pos ha]
    cases p with
    | printer =>
      subst ha
      cases hfile : s.printerF <;>
        simp [writeRegister, Port.addr, Port.file, Port.fileAfter, Port.sent, hfile]
    | serial =>
      subst ha
      cases hfile : s.serialFw <;>
        simp [writeRegister, Port.addr, Port.file, Port.fileAfter, Port.sent, hfile]
  · rw [if_neg ha, Port.fileAfter_nil]
    unfold writeRegister writeOpr
    -- only the arm at the port's own address reaches its file
    cases p with
    | printer =>
      dsimp only [Port.file, Port.addr] at ha ⊢
      repeat' split
      all_goals first | rfl | exact absurd (And.left ‹_ ∧ _›) ha
    | serial =>
      dsimp only [Port.file, Port.addr] at ha ⊢
      repeat' split
      all_goals first | rfl | exact absurd (And.left ‹_ ∧ _›) ha

/-- The ports lie outside the RAM and the svram. -/
theorem Port.not_memory (size : SoundRamSize n) (p : Port) :
    ¬ InRam n p.addr ∧ ¬ p.addr &&& 0xE70001 = 0x40000 := by
  have hn := size.upper
  cases p with
  | printer =>
    refine ⟨fun h => ?_, by decide⟩
    have hi := h.2
    simp only [Port.addr, UInt32.reduceToNat] at hi
    omega
  | serial =>
    refine ⟨fun h => ?_, by decide⟩
    have hi := h.2
    simp only [Port.addr, UInt32.reduceToNat] at hi
    omega

/-- A byte write appends to the file of the port at its address. -/
theorem written_file (size : SoundRamSize n) (ui : Ui) (s : Machine n) (l : UInt32 × UInt8)
    (p : Port) :
    p.file (written ui s l.1 l.2) = p.fileAfter s.translate (p.output [l]) (p.file s) := by
  obtain ⟨a, v⟩ := l
  rw [Port.output_cons, Port.output, List.filterMap_nil, List.append_nil]
  by_cases ha : a = p.addr
  · obtain ⟨hram, hsvram⟩ := p.not_memory size
    rw [written, if_neg (by rwa [ha]), if_neg (by rwa [ha])]
    exact writeRegister_file s a v p
  rw [if_neg ha, Port.fileAfter_nil, written]
  split
  · dsimp only
    split <;> cases p <;> rfl
  · split
    · cases p <;> rfl
    · rw [writeRegister_file, if_neg ha, Port.fileAfter_nil]

theorem writtenAll_file (size : SoundRamSize n) (ui : Ui) (s : Machine n)
    (ls : List (UInt32 × UInt8)) (p : Port) :
    p.file (writtenAll ui s ls) = p.fileAfter s.translate (p.output ls) (p.file s) := by
  induction ls generalizing s with
  | nil => exact (Port.fileAfter_nil _).symm
  | cons l ls ih =>
    have hsame := (written_sameDevices ui s l.1 l.2).translate
    rw [writtenAll_cons, ih, written_file size, hsame, ← Port.fileAfter_append,
      ← Port.output_append, List.singleton_append]

/-! ### Runs -/

/-- What the guest has sent to a port in a run. -/
def guestOutput (p : Port) (xs : List DeviceStep) : List UInt8 :=
  p.output (xs.flatMap DeviceStep.writeLanes)

/-- What the steps `xs` do to the output between `s` and `t`. -/
structure OutputEffect (xs : List DeviceStep) (s t : Machine n) : Prop where
  translate : t.translate = s.translate
  file : ∀ p : Port, p.file t = p.fileAfter s.translate (guestOutput p xs) (p.file s)

theorem OutputEffect.refl (s : Machine n) : OutputEffect [] s s :=
  ⟨rfl, fun _ => (Port.fileAfter_nil _).symm⟩

theorem OutputEffect.append {xs ys : List DeviceStep} {s t u : Machine n}
    (h : OutputEffect xs s t) (h' : OutputEffect ys t u) : OutputEffect (xs ++ ys) s u := by
  refine ⟨h'.translate.trans h.translate, fun p => ?_⟩
  rw [h'.file, h.file, h.translate, guestOutput, guestOutput, guestOutput, List.flatMap_append,
    Port.output_append, Port.fileAfter_append]

/-- A step that writes nothing and leaves the files alone. -/
theorem OutputEffect.of_eq {x : DeviceStep} {s t : Machine n} (hwrites : x.writeLanes = [])
    (htranslate : t.translate = s.translate) (hprinter : t.printerF = s.printerF)
    (hserial : t.serialFw = s.serialFw) : OutputEffect [x] s t := by
  refine ⟨htranslate, fun p => ?_⟩
  have hnone : guestOutput p [x] = [] := by
    rw [guestOutput, List.flatMap_singleton, hwrites]
    rfl
  rw [hnone, Port.fileAfter_nil]
  cases p with
  | printer => exact hprinter
  | serial => exact hserial

theorem DeviceStep.outputEffect (size : SoundRamSize n) {ui : Ui} {s t : Machine n}
    {x : DeviceStep} (h : x.step ui s = some t) : OutputEffect [x] s t := by
  cases x with
  | access x =>
    cases x with
    | read w a =>
      obtain ⟨⟨v, u⟩, hread, rfl⟩ := Option.map_eq_some_iff.mp h
      obtain ⟨rfl, -, -⟩ := m68kReadMemory_lanes size.upper hread
      rw [readEffects_eq]
      exact .of_eq rfl rfl rfl rfl
    | write b =>
      rw [step, Access.step, b.step_eq size] at h
      obtain rfl := Option.some.inj h
      refine ⟨(writtenAll_sameDevices ui s b.lanes).translate, fun p => ?_⟩
      rw [guestOutput, List.flatMap_singleton]
      exact writtenAll_file size ui s b.lanes p
  | tick =>
    obtain rfl := Option.some.inj h
    exact .of_eq rfl rfl rfl rfl
  | display =>
    obtain rfl := Option.some.inj h
    obtain ⟨_, _, hdisp⟩ := displayStep_frame s
    rw [hdisp]
    exact .of_eq rfl rfl rfl rfl
  | event e =>
    obtain rfl := Option.some.inj h
    obtain ⟨_, hevent⟩ := e.apply_frame s
    rw [hevent]
    exact .of_eq rfl rfl rfl rfl
  | serial readable =>
    obtain rfl := Option.some.inj h
    obtain ⟨_, _, _, _, hserial⟩ := serialStep_frame s readable
    rw [hserial]
    exact .of_eq rfl rfl rfl rfl

theorem run_outputEffect (size : SoundRamSize n) {ui : Ui} {s t : Machine n}
    {xs : List DeviceStep} (h : run (DeviceStep.step ui) s xs = some t) : OutputEffect xs s t :=
  run_history (P := fun ys u => OutputEffect ys s u) (.refl s)
    (fun _ _ _ _ effect hstep => effect.append (DeviceStep.outputEffect size hstep)) h

/-- **The output streams.** After any run of bus accesses and steps of the main loop, the file of
the printer holds what it held at the start and then every byte the guest has written to the
printer's register, in order, in writes of any width; the serial file likewise, each CR replaced
by LF when `translate` is set. A stream without a file stays without one. -/
theorem output_exact (ui : Ui) (l : Loaded ramSize) (xs : List DeviceStep) :
    ∃ s, startUp ui l = some s ∧ ∀ t, run (DeviceStep.step ui) s xs = some t →
      t.printerF = l.printerF.map (· ++ guestOutput .printer xs) ∧
      t.serialFw = l.serialFw.map (· ++ (guestOutput .serial xs).map fun c =>
        if l.translate ≠ 0 ∧ c = 0x0D then 0x0A else c) := by
  have hn : videoBytes ≤ ramSize := by decide
  refine ⟨_, startUp_eq ui hn l, fun t h => ?_⟩
  have effect := run_outputEffect soundRamSize_ramSize h
  refine ⟨(effect.file .printer).trans ?_, effect.file .serial⟩
  exact congrArg (l.printerF.map ·) (funext fun cs => congrArg (cs ++ ·) (List.map_id _))

/-! ### One emulator to another -/

/-- A byte that goes out of one emulator and into another is the byte that was sent, unless both
translate and it is LF. -/
theorem translated_sent {translate translate' c : UInt8} (same : translate = 0 ↔ translate' = 0)
    (hc : translate = 0 ∨ c ≠ 0x0A) :
    translated translate' (Port.sent translate c .serial) = c := by
  by_cases ht : translate = 0
  · rw [Port.sent, if_neg fun h => h.1 ht, translated, if_neg fun h => h.1 (same.mp ht)]
  · have ht' : translate' ≠ 0 := fun h => ht (same.mpr h)
    have hlf : c ≠ 0x0A := hc.resolve_left ht
    by_cases hcr : c = 0x0D
    · rw [Port.sent, if_pos ⟨ht, hcr⟩, translated, if_pos ⟨ht', rfl⟩, hcr]
    · rw [Port.sent, if_neg fun h => hcr h.2, translated, if_neg fun h => hlf h.2]

/-- **Serial port to serial port.** The serial output file of one emulator is the serial input of
another, both with `-t` or both without, and with `-t` no LF was sent. In any run of the receiver
the bytes kept by its guest are then always a prefix of the bytes the guest of the sender wrote,
and none is overwritten unread, exactly when the main loop never delivers a byte between a status
read that returned bit 0 set and the next data read. -/
theorem serial_link_exact_iff (ui ui' : Ui) (l l' : Loaded ramSize)
    (same : l.translate = 0 ↔ l'.translate = 0) (xs : List DeviceStep) {s t : Machine ramSize}
    (start : startUp ui { l with serialFw := some [] } = some s)
    (sends : run (DeviceStep.step ui) s xs = some t)
    (text : l.translate = 0 ∨ 0x0A ∉ guestOutput .serial xs) (ys : List LinkStep) :
    ∃ r, startUp ui' { l' with serialFr := t.serialFw } = some r ∧
      (Always (Link.step ui') (Received (guestOutput .serial xs)) (Link.start r) ys
        ↔ Meets (Link.step ui') DeliversUnclaimed (Link.start r) ys) := by
  have hn : videoBytes ≤ ramSize := by decide
  rw [startUp_eq ui hn] at start
  obtain rfl := Option.some.inj start
  have hfile : t.serialFw = some ((guestOutput .serial xs).map (Port.sent l.translate · .serial)) :=
    ((run_outputEffect soundRamSize_ramSize sends).file .serial).trans
      (congrArg some (List.nil_append _))
  obtain ⟨input, hinput⟩ : ∃ input,
      input = (guestOutput .serial xs).map (Port.sent l.translate · .serial) := ⟨_, rfl⟩
  have arrives : input.map (translated l'.translate) = guestOutput .serial xs := by
    rw [hinput, List.map_map]
    refine (List.map_congr_left fun c hc => ?_).trans (List.map_id _)
    exact translated_sent same (text.imp_right fun h heq => h (heq ▸ hc))
  obtain ⟨r, start', hsra, hrem⟩ : ∃ r, startUp ui' { l' with serialFr := some input } = some r ∧
      r.duartSra &&& 1 = 0 ∧ remaining r = input.map (translated l'.translate) :=
    ⟨_, startUp_eq ui' hn _, show (0x04 : UInt8) &&& 1 = 0 by decide, rfl⟩
  rw [hfile, ← hinput, ← arrives, ← hrem]
  refine ⟨r, start', ?_⟩
  exact always_iff_meets (fun _ inv => inv.received)
    (fun _ _ _ inv ok h => LinkInv.step soundRamSize_ramSize inv ok h)
    (fun _ _ _ inv bad h => LinkInv.strict inv bad h) (linkInv_start hsra)

/-- A CR from one emulator to another with `-t`, read as soon as it has been delivered. -/
theorem serial_link_exact_cr :
    ∃ r, startUp .xlib { Loaded.zero ramSize with translate := 1, serialFr := some [0x0A] }
        = some r ∧
      (Always (Link.step .xlib) (Received [0x0D]) (Link.start r)
          [.boundary ⟨none, false⟩ true, .access (.read .byte (address68k 0x810003)) true,
            .access (.read .byte (address68k 0x810007)) false]
        ↔ Meets (Link.step .xlib) DeliversUnclaimed (Link.start r)
          [.boundary ⟨none, false⟩ true, .access (.read .byte (address68k 0x810003)) true,
            .access (.read .byte (address68k 0x810007)) false]) := by
  have hn : videoBytes ≤ ramSize := by decide
  exact serial_link_exact_iff .sdl .xlib { Loaded.zero ramSize with translate := 1 }
    { Loaded.zero ramSize with translate := 1 } Iff.rfl
    [.access (.write ⟨.byte, address68k 0x810007, 0x0D⟩)] (startUp_eq .sdl hn _) rfl
    (.inr (by decide)) _

end Kyacopycat
