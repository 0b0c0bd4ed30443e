import Kyacopycat.Bus.ReadOrder
import Kyacopycat.Display.Window
import Kyacopycat.Serial

/-!
The device registers over whole runs.

`DeviceStep` is a step of the guest or of the main loop, in any order: a bus access, the
timer tick, the display step, an event and the serial input step. `DeviceEffect` says once
what a step does to the registers of the DUART, the tick counter and the video control, and
every invariant below is derived from it.

* `iterate_devices`: an iteration of the main loop is a run of such steps.
* `device_registers`: which bits of the registers never change and which never get set.
* `receiveReady_iff`: in which runs the two receive-ready flags agree.
-/

namespace Kyacopycat

open Run

variable {n : Nat}

/-! ### Steps -/

/-- A step that the device registers may see. -/
inductive DeviceStep where
  | access (x : Access)
  | tick
  | display
  | event (e : EventEffect)
  | serial (readable : Bool)

/-- The machine after a step. -/
def DeviceStep.step (ui : Ui) (s : Machine n) : DeviceStep → Option (Machine n)
  | .access x => x.step ui s
  | .tick => some (Kyacopycat.tick s)
  | .display => some (displayStep s).2
  | .event e => some (e.apply s)
  | .serial readable => some (serialStep s readable)

/-- The steps of an iteration of the main loop, in its order. -/
def Slice.deviceSteps (remap : UInt8) (x : Slice) : List DeviceStep :=
  x.accesses.map .access ++
    [.tick, .display, .event (xlibEvent remap x.event), .serial x.readable]

theorem run_map_access (ui : Ui) (s : Machine n) (xs : List Access) (ys : List DeviceStep) :
    run (DeviceStep.step ui) s (xs.map .access ++ ys)
      = (run (Access.step ui) s xs).bind fun t => run (DeviceStep.step ui) t ys := by
  induction xs generalizing s with
  | nil => rfl
  | cons x xs ih =>
    rw [List.map_cons, List.cons_append, run_cons, run_cons, Option.bind_assoc]
    exact Option.bind_congr fun t _ => ih t

/-- An iteration of the main loop is a run of device steps. -/
theorem iterate_devices {remap : UInt8} {e e' : Emulator n} {x : Slice}
    (h : iterate remap e x = some e') :
    run (DeviceStep.step .xlib) e.machine (x.deviceSteps remap) = some e'.machine := by
  unfold iterate at h
  split at h
  · obtain ⟨s, hs, heq⟩ := Option.bind_eq_some_iff.mp h
    rw [Slice.deviceSteps, run_map_access, hs, Option.bind_some]
    exact congrArg some (congrArg Emulator.machine (Option.some.inj heq))
  · cases h

/-! ### What a step does to the registers -/

def DeviceStep.isTick : DeviceStep → Bool
  | .tick => true
  | _ => false

def DeviceStep.isDisplay : DeviceStep → Bool
  | .display => true
  | _ => false

/-- The step is a read with a lane at `r`. -/
def DeviceStep.reads (r : UInt32) : DeviceStep → Bool
  | .access (.read w a) => decide (r ∈ laneAddresses w a.addr)
  | _ => false

/-- The byte writes of a step. -/
def DeviceStep.writeLanes : DeviceStep → List (UInt32 × UInt8)
  | .access x => x.writeLanes
  | _ => []

/-- The step delivers a byte of the serial input. -/
def DeviceStep.delivers (s : Machine n) : DeviceStep → Bool
  | .serial readable => decide (Delivers s readable)
  | _ => false

/-- The input port change register after the tick with the given count. -/
def tickIpcr (trg : UInt16) : UInt8 := ((0x40 : UInt16) ||| ((trg % 2) <<< 2)).toUInt8

/-- What a step does to the registers between `s` and `t`. -/
structure DeviceEffect (x : DeviceStep) (s t : Machine n) : Prop where
  trg : t.trg = if x.isTick then s.trg + 1 else s.trg
  duartIpcr : t.duartIpcr =
    if x.isTick then tickIpcr (s.trg + 1)
    else if x.reads 0x810009 then 0 else s.duartIpcr
  duartIsr : t.duartIsr =
    if x.isTick then s.duartIsr ||| 0x80
    else if x.reads 0x81000b then s.duartIsr &&& 0x3B
    else if x.delivers s then s.duartIsr ||| 0x02 else s.duartIsr
  duartSra : t.duartSra =
    if x.reads 0x810003 then s.duartSra &&& 0x04
    else if x.delivers s then s.duartSra ||| 0x01 else s.duartSra
  vBlank : t.vBlank =
    if x.isDisplay ∧ s.vBlank = 1 then 2 else x.writeLanes.foldl blankStep s.vBlank
  polarity : (t.vZero, t.vOne) = x.writeLanes.foldl polarityStep (s.vZero, s.vOne)

theorem writtenAll_polarity (size : SoundRamSize n) (ui : Ui) (s : Machine n)
    (ls : List (UInt32 × UInt8)) :
    ((writtenAll ui s ls).vZero, (writtenAll ui s ls).vOne)
      = ls.foldl polarityStep (s.vZero, s.vOne) := by
  induction ls generalizing s with
  | nil => rfl
  | cons l ls ih => rw [writtenAll_cons, ih, written_polarity size, List.foldl_cons]

theorem displayStep_vBlank (s : Machine n) :
    (displayStep s).2.vBlank = if s.vBlank = 1 then 2 else s.vBlank := by
  unfold displayStep
  by_cases h0 : s.vBlank = 0
  · have h1 : ¬ s.vBlank = 1 := by
      rw [h0]
      decide
    rw [if_pos h0, if_neg h1]
    split <;> rfl
  · rw [if_neg h0]
    by_cases h1 : s.vBlank = 1
    · rw [if_pos h1, if_pos h1, h1]
      rfl
    · rw [if_neg h1, if_neg h1]

/-- The serial input step sets its flag in both registers. -/
theorem serialStep_flags (s : Machine n) (readable : Bool) :
    (serialStep s readable).duartIsr
        = (if Delivers s readable then s.duartIsr ||| 0x02 else s.duartIsr) ∧
      (serialStep s readable).duartSra
        = if Delivers s readable then s.duartSra ||| 0x01 else s.duartSra := by
  unfold serialStep Delivers
  split
  next hfr => simp [hfr]
  next input hfr =>
    split
    next hsra => simp [hsra]
    next hsra =>
      rw [ne_eq, not_not] at hsra
      split
      next hread =>
        split
        next => simp [hfr]
        next c rest => simp [hfr, hsra, hread]
      next hread => simp [hread]

theorem DeviceStep.effect (size : SoundRamSize n) {ui : Ui} {s t : Machine n} {x : DeviceStep}
    (h : x.step ui s = some t) : DeviceEffect x s t := by
  cases x with
  | access x =>
    cases x with
    | read w a =>
      obtain ⟨⟨v, u⟩, hread, rfl⟩ := Option.map_eq_some_iff.mp h
      obtain ⟨rfl, -, -⟩ := m68kReadMemory_lanes size.upper hread
      rw [readEffects_eq]
      refine ⟨rfl, ?_, ?_, ?_, rfl, rfl⟩ <;> simp [isTick, reads, delivers]
    | write b =>
      rw [step, Access.step, b.step_eq size] at h
      obtain rfl := Option.some.inj h
      have frame := writtenAll_sameDevices ui s b.lanes
      exact ⟨frame.trg, frame.duartIpcr, frame.duartIsr, frame.duartSra,
        (VideoEffect.bytes size ui s b.lanes).vBlank, writtenAll_polarity size ui s b.lanes⟩
  | tick =>
    obtain rfl := Option.some.inj h
    exact ⟨rfl, rfl, rfl, rfl, rfl, rfl⟩
  | display =>
    obtain rfl := Option.some.inj h
    have hblank := displayStep_vBlank s
    obtain ⟨vBlank, vramTouched, hdisp⟩ := displayStep_frame s
    rw [hdisp] at hblank ⊢
    exact ⟨rfl, rfl, rfl, rfl, by simpa [isDisplay, writeLanes] using hblank, rfl⟩
  | event e =>
    obtain rfl := Option.some.inj h
    obtain ⟨kbRd, hevent⟩ := e.apply_frame s
    rw [hevent]
    exact ⟨rfl, rfl, rfl, rfl, rfl, rfl⟩
  | serial readable =>
    obtain rfl := Option.some.inj h
    obtain ⟨hisr, hsra⟩ := serialStep_flags s readable
    obtain ⟨_, _, _, _, hserial⟩ := serialStep_frame s readable
    rw [hserial] at hisr hsra ⊢
    refine ⟨rfl, rfl, ?_, ?_, rfl, rfl⟩
    · simpa [isTick, reads, delivers] using hisr
    · simpa [isTick, reads, delivers] using hsra

/-! ### Bits that keep their value -/

/-- The transmit-ready and counter-ready bits are set, only the bits that the program uses
are ever set, and `v_blank` counts no further than 2. -/
structure RegisterInv (s : Machine n) : Prop where
  sraReady : s.duartSra &&& 0x04 = 0x04
  sraUnused : s.duartSra &&& ~~~(0x05 : UInt8) = 0
  isrReady : s.duartIsr &&& 0x19 = 0x19
  isrUnused : s.duartIsr &&& ~~~(0x9B : UInt8) = 0
  vBlank : s.vBlank ≤ 2

theorem DeviceEffect.duartIsr_and {x : DeviceStep} {s t : Machine n} (h : DeviceEffect x s t)
    {m v : UInt8} (hs : s.duartIsr &&& m = v) (htick : v ||| (0x80 &&& m) = v)
    (hread : v &&& 0x3B = v) (hserial : v ||| (0x02 &&& m) = v) : t.duartIsr &&& m = v := by
  rw [h.duartIsr]
  split
  · exact (BitField.or_and_of_and hs _).trans htick
  split
  · exact (BitField.and_and_of_and hs _).trans hread
  split
  · exact (BitField.or_and_of_and hs _).trans hserial
  · exact hs

theorem DeviceEffect.duartSra_and {x : DeviceStep} {s t : Machine n} (h : DeviceEffect x s t)
    {m v : UInt8} (hs : s.duartSra &&& m = v) (hread : v &&& 0x04 = v)
    (hserial : v ||| (0x01 &&& m) = v) : t.duartSra &&& m = v := by
  rw [h.duartSra]
  split
  · exact (BitField.and_and_of_and hs _).trans hread
  split
  · exact (BitField.or_and_of_and hs _).trans hserial
  · exact hs

theorem RegisterInv.step {x : DeviceStep} {s t : Machine n} (inv : RegisterInv s)
    (h : DeviceEffect x s t) : RegisterInv t where
  sraReady := h.duartSra_and inv.sraReady rfl rfl
  sraUnused := h.duartSra_and inv.sraUnused rfl rfl
  isrReady := h.duartIsr_and inv.isrReady rfl rfl rfl
  isrUnused := h.duartIsr_and inv.isrUnused rfl rfl rfl
  vBlank := by
    rw [h.vBlank]
    split
    · decide
    · rcases foldl_blankStep x.writeLanes s.vBlank with hb | hb | hb
      · rw [hb]
        exact inv.vBlank
      · rw [hb]
        decide
      · rw [hb]
        decide

theorem registerInv_start {s : Machine n} (hsra : s.duartSra = 0x04) (hisr : s.duartIsr = 0x19)
    (hblank : s.vBlank = 0) : RegisterInv s := by
  constructor
  · rw [hsra]
    decide
  · rw [hsra]
    decide
  · rw [hisr]
    decide
  · rw [hisr]
    decide
  · rw [hblank]
    decide

/-! ### Polarity -/

/-- The polarity after a run is the one its byte writes leave. -/
theorem run_polarity (size : SoundRamSize n) {ui : Ui} {s t : Machine n} {xs : List DeviceStep}
    (h : run (DeviceStep.step ui) s xs = some t) :
    (t.vZero, t.vOne)
      = (xs.flatMap DeviceStep.writeLanes).foldl polarityStep (s.vZero, s.vOne) := by
  refine run_history (P := fun ys u => (u.vZero, u.vOne)
    = (ys.flatMap DeviceStep.writeLanes).foldl polarityStep (s.vZero, s.vOne)) rfl ?_ h
  intro ys u x v ih hstep
  rw [List.flatMap_append, List.foldl_append, ← ih, List.flatMap_singleton]
  exact (DeviceStep.effect size hstep).polarity

/-- Only the writes that set a polarity change it. -/
theorem foldl_polarityStep_of_not_sets {ls : List (UInt32 × UInt8)}
    (h : ∀ l ∈ ls, ¬ SetsPolarity l) (zo : UInt8 × UInt8) : ls.foldl polarityStep zo = zo := by
  induction ls generalizing zo with
  | nil => rfl
  | cons l ls ih =>
    obtain ⟨hl, hls⟩ := List.forall_mem_cons.mp h
    rw [List.foldl_cons, polarityStep_of_not_sets hl, ih hls]

/-- The last write that set a polarity decides it. -/
theorem foldl_polarityStep_last {before after : List (UInt32 × UInt8)} {w : UInt32 × UInt8}
    (sets : SetsPolarity w) (last : ∀ l ∈ after, ¬ SetsPolarity l) (zo : UInt8 × UInt8) :
    (before ++ w :: after).foldl polarityStep zo
      = if w.2 &&& 0x10 ≠ 0 then (0xFF, 0) else (0, 0xFF) := by
  rw [List.foldl_append, List.foldl_cons, foldl_polarityStep_of_not_sets last]
  exact if_pos sets

/-- **The device registers over whole runs.** After any run of bus accesses, timer ticks,
display steps, events and serial input steps the ready bits are set and no unused bit is,
and once the guest has set a polarity, `v_zero` and `v_one` are the two that the last write
that set one asks for. -/
theorem device_registers (ui : Ui) (l : Loaded ramSize) (xs : List DeviceStep) :
    ∃ s, startUp ui l = some s ∧ ∀ t, run (DeviceStep.step ui) s xs = some t →
      RegisterInv t ∧
        ∀ before w after, xs.flatMap DeviceStep.writeLanes = before ++ w :: after →
          SetsPolarity w → (∀ x ∈ after, ¬ SetsPolarity x) →
            (t.vZero, t.vOne) = if w.2 &&& 0x10 ≠ 0 then (0xFF, 0) else (0, 0xFF) := by
  have hn : videoBytes ≤ ramSize := by decide
  have size := soundRamSize_ramSize
  refine ⟨_, startUp_eq ui hn l, ?_⟩
  intro t h
  constructor
  · exact run_invariant (fun u x v inv hstep => inv.step (DeviceStep.effect size hstep))
      (registerInv_start rfl rfl rfl) h
  · intro before w after hsplit sets last
    rw [run_polarity size h, hsplit, foldl_polarityStep_last sets last]

/-! ### Receive ready -/

/-- The receive-ready bits of the interrupt status and of the status register agree. -/
def ReadyFlagsAgree (s : Machine n) : Prop :=
  s.duartIsr &&& 0x02 ≠ 0 ↔ s.duartSra &&& 0x01 ≠ 0

/-- If the step reads the status register, no byte is pending there. -/
def StatusReadIdle (s : Machine n) (x : DeviceStep) : Prop :=
  x.reads 0x810003 = true → s.duartSra &&& 0x01 = 0

/-- A delivery is neither a tick nor a read. -/
theorem DeviceStep.not_tick_of_delivers {s : Machine n} {x : DeviceStep}
    (h : x.delivers s = true) : x.isTick = false ∧ ∀ r, x.reads r = false := by
  cases x with
  | serial readable => exact ⟨rfl, fun _ => rfl⟩
  | access x => cases h
  | tick => cases h
  | display => cases h
  | event e => cases h

/-- The receive-ready bit of the interrupt status is set by a delivery and cleared by nothing. -/
theorem DeviceEffect.isr_ready_iff {x : DeviceStep} {s t : Machine n} (h : DeviceEffect x s t) :
    t.duartIsr &&& 0x02 ≠ 0 ↔ s.duartIsr &&& 0x02 ≠ 0 ∨ x.delivers s = true := by
  rw [h.duartIsr]
  by_cases hd : x.delivers s = true
  · obtain ⟨htick, hreads⟩ := DeviceStep.not_tick_of_delivers hd
    rw [if_neg (by simp [htick]), if_neg (by simp [hreads]), if_pos hd,
      BitField.or_and_of_and rfl]
    simp [hd]
  · rw [or_iff_left hd, if_neg hd]
    refine not_congr (Eq.congr_left ?_)
    split
    · exact (BitField.or_and_of_and rfl 0x80).trans UInt8.or_zero
    split
    · exact UInt8.and_assoc _ _ _
    · rfl

/-- That of the status register is cleared by reading the register. -/
theorem DeviceEffect.sra_ready_iff {x : DeviceStep} {s t : Machine n} (h : DeviceEffect x s t) :
    t.duartSra &&& 0x01 ≠ 0 ↔
      (s.duartSra &&& 0x01 ≠ 0 ∧ ¬ x.reads 0x810003 = true) ∨ x.delivers s = true := by
  rw [h.duartSra]
  by_cases hd : x.delivers s = true
  · obtain ⟨-, hreads⟩ := DeviceStep.not_tick_of_delivers hd
    rw [if_neg (by simp [hreads]), if_pos hd, BitField.or_one_and_one]
    simp [hd]
  · rw [or_iff_left hd, if_neg hd]
    split
    next hread =>
      rw [UInt8.and_assoc, show (0x04 : UInt8) &&& 0x01 = 0 from rfl, UInt8.and_zero]
      simp [hread]
    next hread => simp [hread]

theorem ReadyFlagsAgree.step {x : DeviceStep} {s t : Machine n} (agree : ReadyFlagsAgree s)
    (idle : StatusReadIdle s x) (h : DeviceEffect x s t) : ReadyFlagsAgree t := by
  unfold ReadyFlagsAgree at agree ⊢
  rw [h.isr_ready_iff, h.sra_ready_iff, agree]
  refine or_congr_left ⟨fun hready => ⟨hready, fun hread => hready (idle hread)⟩, And.left⟩

/-- A status read with a byte pending leaves the interrupt status reporting it. -/
theorem ReadyFlagsAgree.strict {x : DeviceStep} {s t : Machine n} (agree : ReadyFlagsAgree s)
    (bad : ¬ StatusReadIdle s x) (h : DeviceEffect x s t) : ¬ ReadyFlagsAgree t := by
  simp only [StatusReadIdle, Classical.not_imp] at bad
  obtain ⟨hread, hready⟩ := bad
  have hsilent : ¬ x.delivers s = true := fun hd => by
    rw [(DeviceStep.not_tick_of_delivers hd).2] at hread
    cases hread
  intro agree'
  have hset := agree'.mp (h.isr_ready_iff.mpr (.inl (agree.mpr hready)))
  rcases h.sra_ready_iff.mp hset with ⟨-, hnot⟩ | hd
  · exact hnot hread
  · exact hsilent hd

/-- **When the two receive-ready flags agree.** In a run they agree in every state exactly
when the status register is never read while a byte is pending there: that read clears the
flag of the status register, and nothing clears the one of the interrupt status. -/
theorem receiveReady_iff (ui : Ui) (l : Loaded ramSize) (xs : List DeviceStep) :
    ∃ s, startUp ui l = some s ∧
      (Always (DeviceStep.step ui) ReadyFlagsAgree s xs
        ↔ Meets (DeviceStep.step ui) StatusReadIdle s xs) := by
  have hn : videoBytes ≤ ramSize := by decide
  have size := soundRamSize_ramSize
  refine ⟨_, startUp_eq ui hn l, ?_⟩
  exact always_iff_meets (fun _ agree => agree)
    (fun _ _ _ agree idle h => agree.step idle (DeviceStep.effect size h))
    (fun _ _ _ agree bad h => agree.strict bad (DeviceStep.effect size h))
    (show (0x19 : UInt8) &&& 0x02 ≠ 0 ↔ (0x04 : UInt8) &&& 0x01 ≠ 0 by decide)

/-- A byte is delivered and the guest reads the status register: the interrupt status still
reports the byte. -/
theorem not_readyFlagsAgree_read :
    ¬ ∀ (ui : Ui) (l : Loaded ramSize) (xs : List DeviceStep) (s : Machine ramSize),
      startUp ui l = some s → Always (DeviceStep.step ui) ReadyFlagsAgree s xs := by
  intro all
  have hn : videoBytes ≤ ramSize := by decide
  have always := all .sdl { Loaded.zero ramSize with serialFr := some [0x41] }
    [.serial true, .access (.read .byte (address68k 0x810003))] _ (startUp_eq .sdl hn _)
  have agree := always.last rfl
  exact absurd agree (show ¬ ((0x1B : UInt8) &&& 0x02 ≠ 0 ↔ (0x04 : UInt8) &&& 0x01 ≠ 0) by decide)

end Kyacopycat
