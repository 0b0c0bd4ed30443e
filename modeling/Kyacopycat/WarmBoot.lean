import Kyacopycat.Bus.Bounds
import Kyacopycat.Display.Render
import Kyacopycat.Musashi
import Mathlib.Tactic.IntervalCases

/-!
The warm boot: one level 7 interrupt, at the start of the first slice.

`main` requests level 7 before it initializes and resets the core. The reset clears the
interrupt pins but not `nmi_pending`, so the request survives it, and the first check for
interrupts, in the first `m68k_execute`, services it. From then on `nmi_pending` is zero and
the pins never carry level 7.

* `NoNmi`: a part of a run that services no level 7 interrupt and leaves none pending.
* `Running.step_noNmi`: every step of the emulator is one.
* `warm_boot_once`: a complete image is followed by exactly one level 7 interrupt, an
  incomplete one by none.
-/

namespace Kyacopycat

open Run

variable {n : Nat}

/-! ### What the parts of the core leave alone -/

theorem Core.read_frame {w : Width} {s t : Core n} {address value : UInt32}
    (h : s.read w address = some (value, t)) : ∃ machine, t = { s with machine } := by
  obtain ⟨⟨v, machine⟩, -, h⟩ := Option.bind_eq_some_iff.mp h
  cases h
  exact ⟨machine, rfl⟩

theorem Core.write_frame {ui : Ui} {w : Width} {s t : Core n} {address value : UInt32}
    (h : s.write ui w address value = some t) : ∃ machine, t = { s with machine } := by
  obtain ⟨machine, -, h⟩ := Option.bind_eq_some_iff.mp h
  cases h
  exact ⟨machine, rfl⟩

/-- A push changes the stack pointer and the machine. -/
theorem Core.push_frame {ui : Ui} {w : Width} {bytes value : UInt32} {s t : Core n}
    (h : s.push ui w bytes value = some t) :
    ∃ dar machine, t = { s with cpu := { s.cpu with dar }, machine } := by
  obtain ⟨machine, rfl⟩ := Core.write_frame h
  exact ⟨_, machine, rfl⟩

theorem m68kiStackFrame0000_frame {ui : Ui} {s t : Core n} {pc sr vector : UInt32}
    (h : m68kiStackFrame0000 ui s pc sr vector = some t) :
    ∃ dar machine, t = { s with cpu := { s.cpu with dar }, machine } := by
  obtain ⟨s₁, h₁, h⟩ := Option.bind_eq_some_iff.mp h
  obtain ⟨s₂, h₂, h₃⟩ := Option.bind_eq_some_iff.mp h
  have hvector : ∃ dar machine, s₁ = { s with cpu := { s.cpu with dar }, machine } := by
    split at h₁
    · exact ⟨s.cpu.dar, s.machine, (Option.some.inj h₁).symm⟩
    · exact Core.push_frame h₁
  obtain ⟨_, _, rfl⟩ := hvector
  obtain ⟨_, _, rfl⟩ := Core.push_frame h₂
  obtain ⟨dar, machine, rfl⟩ := Core.push_frame h₃
  exact ⟨dar, machine, rfl⟩

theorem m68kiSetSFlag_frame {c c' : Cpu} {value : UInt32} (h : m68kiSetSFlag c value = some c') :
    ∃ dar sp, c' = { c with dar, sp, sFlag := value } := by
  obtain ⟨sp, -, h⟩ := Option.bind_eq_some_iff.mp h
  obtain ⟨active, -, h⟩ := Option.bind_eq_some_iff.mp h
  cases h
  exact ⟨_, sp, rfl⟩

/-! ### Servicing an interrupt -/

/-- What the exception processing of an interrupt can do: it stops at a halted core, or it logs
the service, enters supervisor mode with the mask raised, pushes the frame and clears the pins. -/
theorem m68kiExceptionInterrupt_cases {ui : Ui} {s t : Core n} {level : UInt32}
    (h : m68kiExceptionInterrupt ui s level = some t) :
    (s.cpu.stopped &&& ~~~1 ≠ 0 ∧
      t = { s with cpu := { s.cpu with stopped := s.cpu.stopped &&& ~~~1 } }) ∨
    (s.cpu.stopped &&& ~~~1 = 0 ∧ ∃ dar sp pc remainingCycles machine, t = {
      cpu := { s.cpu with
        stopped := s.cpu.stopped &&& ~~~1
        t1Flag := 0
        t0Flag := 0
        dar, sp, pc, remainingCycles
        sFlag := 4
        intMask := level <<< 8
        intLevel := 0 }
      machine
      log := s.log ++ [.interrupt level (24 + level)] }) := by
  unfold m68kiExceptionInterrupt at h
  dsimp only at h
  split at h
  next halted =>
    cases h
    exact .inl ⟨halted, rfl⟩
  next running =>
    obtain ⟨⟨sr, c⟩, hinit, h⟩ := Option.bind_eq_some_iff.mp h
    obtain ⟨⟨newPc, s₁⟩, hread, h⟩ := Option.bind_eq_some_iff.mp h
    obtain ⟨⟨newPc', s₂⟩, hdefault, h⟩ := Option.bind_eq_some_iff.mp h
    obtain ⟨s₃, hpush, h⟩ := Option.bind_eq_some_iff.mp h
    obtain ⟨cycles, -, h⟩ := Option.bind_eq_some_iff.mp h
    obtain ⟨c', hflag, hc⟩ := Option.bind_eq_some_iff.mp hinit
    cases hc
    obtain ⟨_, _, rfl⟩ := m68kiSetSFlag_frame hflag
    have hmachine : ∃ machine, s₂ = { s₁ with machine } := by
      split at hdefault
      · exact Core.read_frame hdefault
      · cases hdefault
        exact ⟨s₁.machine, rfl⟩
    obtain ⟨_, rfl⟩ := Core.read_frame hread
    obtain ⟨_, rfl⟩ := hmachine
    obtain ⟨_, _, rfl⟩ := m68kiStackFrame0000_frame hpush
    cases h
    exact .inr ⟨not_not.mp running, _, _, _, _, _, rfl⟩

/-- It is logged and clears the pins unless the core is halted; `nmi_pending` is not its
business. -/
theorem m68kiExceptionInterrupt_spec {ui : Ui} {s t : Core n} {level : UInt32}
    (h : m68kiExceptionInterrupt ui s level = some t) :
    t.cpu.nmiPending = s.cpu.nmiPending ∧
      (t.log = s.log ∧ t.cpu.intLevel = s.cpu.intLevel ∨
        t.log = s.log ++ [.interrupt level (24 + level)] ∧ t.cpu.intLevel = 0) := by
  rcases m68kiExceptionInterrupt_cases h with ⟨-, rfl⟩ | ⟨-, _, _, _, _, _, rfl⟩
  · exact ⟨rfl, .inl ⟨rfl, rfl⟩⟩
  · exact ⟨rfl, .inr ⟨rfl, rfl⟩⟩

/-! ### Runs without level 7 -/

/-- The level of the interrupt an event is the service of. -/
def CoreEvent.level : CoreEvent → Option UInt32
  | .interrupt level _ => some level
  | .reset _ _ => none
  | .instruction _ => none

/-- No level 7 interrupt is pending or on the pins. -/
structure Quiet (c : Cpu) : Prop where
  nmiPending : c.nmiPending = 0
  intLevel : c.intLevel >>> 8 ≠ 7

/-- From `s` to `t` no level 7 interrupt has been serviced, and none is about to be. -/
structure NoNmi (s t : Core n) : Prop where
  quiet : Quiet t.cpu
  log : ∃ es, t.log = s.log ++ es ∧ ∀ e ∈ es, e.level ≠ some 7

theorem NoNmi.trans {s t u : Core n} (h : NoNmi s t) (h' : NoNmi t u) : NoNmi s u := by
  obtain ⟨es, hes, calm⟩ := h.log
  obtain ⟨es', hes', calm'⟩ := h'.log
  refine ⟨h'.quiet, es ++ es', by rw [hes', hes, List.append_assoc], fun e he => ?_⟩
  exact (List.mem_append.mp he).elim (calm e) (calm' e)

/-- A step that logs nothing and leaves the core quiet. -/
theorem NoNmi.of_log_eq {s t : Core n} (quiet : Quiet t.cpu) (log : t.log = s.log) : NoNmi s t :=
  ⟨quiet, [], by simp [log], by simp⟩

/-- Only the log of the first state matters. -/
theorem NoNmi.of_start {s s' t : Core n} (h : NoNmi s' t) (log : s'.log = s.log) : NoNmi s t :=
  ⟨h.quiet, log ▸ h.log⟩

/-- Only the log and the interrupt state of the last state matter. -/
theorem NoNmi.of_end {s t t' : Core n} (h : NoNmi s t)
    (pending : t'.cpu.nmiPending = t.cpu.nmiPending) (level : t'.cpu.intLevel = t.cpu.intLevel)
    (log : t'.log = t.log) : NoNmi s t' :=
  ⟨⟨pending.trans h.quiet.nmiPending, level ▸ h.quiet.intLevel⟩, log ▸ h.log⟩

theorem NoNmi.refl {s : Core n} (quiet : Quiet s.cpu) : NoNmi s s := .of_log_eq quiet rfl

/-- A quiet core services what is on its pins, which is not level 7. -/
theorem m68kiCheckInterrupts_noNmi {ui : Ui} {s t : Core n}
    (h : m68kiCheckInterrupts ui s = some t) (quiet : Quiet s.cpu) : NoNmi s t := by
  rw [m68kiCheckInterrupts, if_neg (not_not_intro quiet.nmiPending)] at h
  split at h
  · obtain ⟨hpending, hsame | hserviced⟩ := m68kiExceptionInterrupt_spec h
    · obtain ⟨hlog, hlevel⟩ := hsame
      exact .of_log_eq ⟨hpending.trans quiet.nmiPending, hlevel ▸ quiet.intLevel⟩ hlog
    · obtain ⟨hlog, hlevel⟩ := hserviced
      refine ⟨⟨hpending.trans quiet.nmiPending, by rw [hlevel]; decide⟩, _, hlog, ?_⟩
      simpa [CoreEvent.level] using quiet.intLevel
  · exact Option.some.inj h ▸ .refl quiet

/-- With nothing pending and nothing on the pins the check does nothing. -/
theorem m68kiCheckInterrupts_idle (ui : Ui) {s : Core n} (pending : s.cpu.nmiPending = 0)
    (level : s.cpu.intLevel = 0) : m68kiCheckInterrupts ui s = some s := by
  rw [m68kiCheckInterrupts, if_neg (not_not_intro pending), level, if_neg UInt32.not_lt_zero]

/-- The timer request at the end of a slice is of level 1. -/
theorem m68kSetIrq_quiet {c : Cpu} (quiet : Quiet c) : Quiet (m68kSetIrq c 1) := by
  rw [m68kSetIrq, if_neg fun h => absurd h.2 (by dsimp only; decide)]
  exact ⟨quiet.nmiPending, by dsimp only; decide⟩

theorem CpuWrite.apply_quiet (w : CpuWrite) {c : Cpu} (quiet : Quiet c) : Quiet (w.apply c) :=
  ⟨(w.nmiPending c).trans quiet.nmiPending, fun h => quiet.intLevel (w.intLevel c h)⟩

/-- A handler raises no level 7 interrupt, whatever it does and however often it lets the
core check for interrupts. -/
theorem Handler.run_noNmi {ui : Ui} {handler : Handler} {s t : Core n}
    (h : handler.run ui s = some t) (quiet : Quiet s.cpu) : NoNmi s t := by
  induction handler generalizing s with
  | done => exact Option.some.inj h ▸ .refl quiet
  | inspect next ih => exact ih s.cpu h quiet
  | modify w next ih => exact (ih h (w.apply_quiet quiet)).of_start rfl
  | read w address next ih =>
    obtain ⟨⟨value, s'⟩, hread, hrun⟩ := Option.bind_eq_some_iff.mp h
    obtain ⟨machine, rfl⟩ := Core.read_frame hread
    exact (ih value hrun quiet).of_start rfl
  | write w address value next ih =>
    obtain ⟨s', hwrite, hrun⟩ := Option.bind_eq_some_iff.mp h
    obtain ⟨machine, rfl⟩ := Core.write_frame hwrite
    exact (ih hrun quiet).of_start rfl
  | checkInterrupts next ih =>
    obtain ⟨s', hcheck, hrun⟩ := Option.bind_eq_some_iff.mp h
    have hcalm := m68kiCheckInterrupts_noNmi hcheck quiet
    exact hcalm.trans (ih hrun hcalm.quiet)

theorem beginExecute_noNmi {ui : Ui} {s : Core n} {r : Running n} {cycles : Int}
    (h : beginExecute ui s cycles = some r) (quiet : Quiet s.cpu) : NoNmi s r.core := by
  unfold beginExecute at h
  dsimp only at h
  split at h
  · cases h
    exact .of_log_eq ⟨quiet.nmiPending, quiet.intLevel⟩ rfl
  · obtain ⟨t, hcheck, h⟩ := Option.bind_eq_some_iff.mp h
    have hcalm := m68kiCheckInterrupts_noNmi hcheck ⟨quiet.nmiPending, quiet.intLevel⟩
    have hbegin : NoNmi s t := hcalm.of_start rfl
    split at h
    · cases h
      exact hbegin
    · cases h
      exact hbegin.of_end rfl rfl rfl

theorem executeInstruction_noNmi {ui : Ui} {ops : Opcodes} {s : Core n} {r : Running n}
    (h : executeInstruction ui ops s = some r) (quiet : Quiet s.cpu) : NoNmi s r.core := by
  obtain ⟨⟨word, s₁⟩, hfetch, hrest⟩ := Option.bind_eq_some_iff.mp h
  obtain ⟨t, hrun, hend⟩ := Option.bind_eq_some_iff.mp hrest
  obtain ⟨machine, rfl⟩ := Core.read_frame hfetch
  have hopcode : NoNmi s { s with log := s.log ++ [.instruction word.toUInt16] } :=
    ⟨quiet, _, rfl, by simp [CoreEvent.level]⟩
  have hhandler := Handler.run_noNmi hrun ⟨quiet.nmiPending, quiet.intLevel⟩
  have hslice : NoNmi s t := hopcode.trans (hhandler.of_start rfl)
  dsimp only at hend
  split at hend
  · cases hend
    exact hslice.of_end rfl rfl rfl
  · cases hend
    exact hslice.of_end rfl rfl rfl

/-- No step of the emulator services a level 7 interrupt, once none is pending. -/
theorem Running.step_noNmi {ui : Ui} {ops : Opcodes} {r r' : Running n} {x : RunStep}
    (h : r.step ui ops x = some r') (quiet : Quiet r.core.cpu) : NoNmi r.core r'.core := by
  obtain ⟨core, phase⟩ := r
  cases x <;> cases phase <;> try cases h
  · exact beginExecute_noNmi h quiet
  · exact executeInstruction_noNmi h quiet
  · exact .of_log_eq (m68kSetIrq_quiet quiet) rfl

/-- Nor does any run of them. -/
theorem Running.run_noNmi {ui : Ui} {ops : Opcodes} {r r' : Running n} {xs : List RunStep}
    (h : run (Running.step ui ops) r xs = some r') (quiet : Quiet r.core.cpu) :
    NoNmi r.core r'.core :=
  run_invariant (P := fun r' => NoNmi r.core r'.core)
    (fun _ _ _ before hstep => before.trans (Running.step_noNmi hstep before.quiet))
    (.refl quiet) h

/-! ### The reset -/

/-- The long at an address of the ROM. -/
def romLong (rom : CArray UInt8 262144) (a : Fin 262141) : UInt32 :=
  (rom ⟨a + 3, by omega⟩).toUInt32 ||| ((rom ⟨a + 2, by omega⟩).toUInt32 <<< 8)
    ||| ((rom ⟨a + 1, by omega⟩).toUInt32 <<< 16) ||| ((rom ⟨a, by omega⟩).toUInt32 <<< 24)

/-- A read in the ROM changes nothing. -/
theorem m68kReadMemory8_rom (s : Machine n) {a : UInt32} (k : Nat) (h : a.toNat + k < 262144) :
    m68kReadMemory8 s (a + UInt32.ofNat k)
      = some ((s.mainRom ⟨a.toNat + k, h⟩).toUInt32, s) := by
  have hlane : (a + UInt32.ofNat k).toNat = a.toNat + k := by
    rw [UInt32.toNat_add, UInt32.toNat_ofNat']
    omega
  rw [m68kReadMemory8, if_pos ((romTest_iff _).mpr (by omega)), hlane,
    CArray.load_of_lt _ (by omega)]
  rfl

theorem m68kReadMemory16_rom (s : Machine n) {a : UInt32} (h : a.toNat < 262143) :
    ∃ value, m68kReadMemory16 s a = some (value, s) := by
  have h0 := m68kReadMemory8_rom s (a := a) 0 (by omega)
  rw [show a + UInt32.ofNat 0 = a from UInt32.add_zero a] at h0
  exact ⟨_, Option.bind_eq_some_iff.mpr ⟨_, m68kReadMemory8_rom s 1 (by omega),
    Option.bind_eq_some_iff.mpr ⟨_, h0, rfl⟩⟩⟩

/-- A read of a long in the ROM returns it. -/
theorem m68kReadMemory32_rom (s : Machine n) {a : UInt32} (h : a.toNat < 262141) :
    m68kReadMemory32 s a = some (romLong s.mainRom ⟨a.toNat, h⟩, s) := by
  have h0 := m68kReadMemory8_rom s (a := a) 0 (by omega)
  rw [show a + UInt32.ofNat 0 = a from UInt32.add_zero a] at h0
  exact Option.bind_eq_some_iff.mpr ⟨_, m68kReadMemory8_rom s 3 (by omega),
    Option.bind_eq_some_iff.mpr ⟨_, m68kReadMemory8_rom s 2 (by omega),
    Option.bind_eq_some_iff.mpr ⟨_, m68kReadMemory8_rom s 1 (by omega),
    Option.bind_eq_some_iff.mpr ⟨_, h0, rfl⟩⟩⟩⟩

/-- A core in supervisor mode uses the interrupt or the master stack pointer. -/
theorem spIndex_supervisor {c : Cpu} (h : c.sFlag = 4) : c.spIndex < 7 := by
  have hlow : ((4 : UInt32) >>> 1 &&& c.mFlag).toNat ≤ 2 := by
    rw [UInt32.toNat_and]
    exact Nat.and_le_left
  rw [Cpu.spIndex, h, UInt32.toNat_or]
  interval_cases ((4 : UInt32) >>> 1 &&& c.mFlag).toNat <;> decide

theorem spIndex_interrupt {c : Cpu} (s : c.sFlag = 4) (m : c.mFlag = 0) : c.spIndex = 4 := by
  rw [Cpu.spIndex, s, m]
  decide

/-- Entering supervisor mode from supervisor mode keeps the stack pointer in use. -/
theorem m68kiSetSFlag_supervisor {c : Cpu} (supervisor : c.sFlag = 4) :
    ∃ dar sp, m68kiSetSFlag c 4 = some { c with dar, sp, sFlag := 4 } ∧ dar 15 = c.dar 15 := by
  have before := spIndex_supervisor supervisor
  have hstore := CArray.store_of_lt c.sp before (c.dar 15)
  have hindex : Cpu.spIndex { c with sp := c.sp.set c.spIndex (c.dar 15), sFlag := 4 }
      = c.spIndex := by rw [Cpu.spIndex, Cpu.spIndex, supervisor]
  have hload : (c.sp.set c.spIndex (c.dar 15)).load c.spIndex = some (c.dar 15) := by
    rw [CArray.load_set, if_pos ⟨rfl, before⟩]
  refine ⟨_, _, Option.bind_eq_some_iff.mpr ⟨_, hstore, Option.bind_eq_some_iff.mpr
    ⟨_, (congrArg (CArray.load _) hindex).trans hload, rfl⟩⟩, ?_⟩
  simp

/-- Entering supervisor mode by both flags: the interrupt stack pointer is used. -/
theorem m68kiSetSmFlag_supervisor {c : Cpu} (before : c.spIndex < 7) :
    m68kiSetSmFlag c 4 = some { c with
      dar := c.dar.set 15 (c.sp.set c.spIndex (c.dar 15) 4)
      sp := c.sp.set c.spIndex (c.dar 15)
      sFlag := 4
      mFlag := 0 } := by
  have hstore := CArray.store_of_lt c.sp before (c.dar 15)
  have hload := CArray.load_of_lt (c.sp.set c.spIndex (c.dar 15)) (i := 4) (by decide)
  have hindex : { c with
      sp := c.sp.set c.spIndex (c.dar 15)
      sFlag := 4 &&& 4
      mFlag := 4 &&& 2 }.spIndex = 4 := spIndex_interrupt rfl rfl
  exact Option.bind_eq_some_iff.mpr ⟨_, hstore, Option.bind_eq_some_iff.mpr
    ⟨_, (congrArg (CArray.load _) hindex).trans hload, rfl⟩⟩

/-- A core that can take an exception: a 68000 in supervisor mode, with its 24 address lines and
its vectors in the ROM. -/
structure TakesExceptions (c : Cpu) : Prop where
  cpuType : c.cpuType = 1
  sFlag : c.sFlag = 4
  stopped : c.stopped = 0
  vbr : c.vbr = 0
  addressMask : c.addressMask = 0x00ffffff

/-- An immediate long comes from where the program counter points. -/
theorem m68kiReadImm32_eq {s : Core n} {a value : UInt32} {machine : Machine n}
    (h : m68kReadMemory32 s.machine a = some (value, machine)) (pc : s.cpu.pc = a)
    (mask : s.cpu.addressMask = 0x00ffffff) (low : a &&& 0x00ffffff = a) :
    m68kiReadImm32 s
      = some (value, { s with cpu := { s.cpu with pc := s.cpu.pc + 4 }, machine }) := by
  have hpc : (s.cpu.pc + 4 - 4) &&& s.cpu.addressMask = a := by
    rw [mask, UInt32.add_sub_cancel, pc, low]
  exact Option.bind_eq_some_iff.mpr ⟨_, (congrArg (m68kReadMemory32 s.machine) hpc).trans h, rfl⟩

/-- The reset loads the stack pointer and the program counter from the first two longs of
the ROM. It keeps a pending level 7 interrupt. -/
theorem m68kPulseReset_spec (s : Core n) (type : s.cpu.cpuType = 1) (sFlag : s.cpu.sFlag = 0)
    (mFlag : s.cpu.mFlag = 0) (mask : s.cpu.addressMask = 0x00ffffff) :
    ∃ t, m68kPulseReset s = some t ∧ t.cpu.dar 15 = romLong s.machine.mainRom 0 ∧
      t.cpu.pc = romLong s.machine.mainRom 4 ∧ TakesExceptions t.cpu ∧ t.cpu.resetCycles = 40 ∧
      m68kiGetSr t.cpu = m68kiGetSr { s.cpu with
        t1Flag := 0
        t0Flag := 0
        sFlag := 4
        intMask := 0x0700 } ∧
      t.cpu.intLevel = 0 ∧ t.cpu.nmiPending = s.cpu.nmiPending ∧ t.machine = s.machine ∧
      t.log = s.log ++ [.reset (romLong s.machine.mainRom 0) (romLong s.machine.mainRom 4)] := by
  have hsp := m68kReadMemory32_rom s.machine (a := 0) (by decide)
  have hpc := m68kReadMemory32_rom s.machine (a := 4) (by decide)
  have hindex : s.cpu.spIndex = 0 := by rw [Cpu.spIndex, sFlag, mFlag]; rfl
  refine ⟨_, Option.bind_eq_some_iff.mpr ⟨_, m68kiSetSmFlag_supervisor ?_,
      Option.bind_eq_some_iff.mpr ⟨_, m68kiReadImm32_eq (a := 0) (by exact hsp) rfl mask rfl,
      Option.bind_eq_some_iff.mpr ⟨_, m68kiReadImm32_eq (a := 4) (by exact hpc) rfl mask rfl,
      rfl⟩⟩⟩, ?_⟩
  · exact hindex.trans_lt (by decide)
  refine ⟨rfl, rfl, ⟨type, rfl, rfl, rfl, mask⟩, rfl, ?_, rfl, rfl, rfl, rfl⟩
  simp only [m68kiGetSr, mFlag]

/-! ### The first slice -/

/-- A write of the core is a write on the bus, and defined for every RAM size the decoder
handles. -/
theorem Core.write_total (size : SoundRamSize n) (ui : Ui) (w : Width) {s : Core n}
    (mask : s.cpu.addressMask = 0x00ffffff) (address value : UInt32) :
    ∃ machine, s.write ui w address value = some { s with machine } ∧
      BusWrite.step ui s.machine ⟨w, address68k address, value⟩ = some machine := by
  have hwrite := BusWrite.step_eq size ui s.machine ⟨w, address68k address, value⟩
  have haddress : address &&& s.cpu.addressMask = (address68k address).addr := by rw [mask]; rfl
  exact ⟨_, Option.bind_eq_some_iff.mpr
    ⟨_, (congrArg (m68kWriteMemory ui w s.machine · value) haddress).trans hwrite, rfl⟩, hwrite⟩

theorem Core.push_total (size : SoundRamSize n) (ui : Ui) (w : Width) (bytes : UInt32)
    {s : Core n} (mask : s.cpu.addressMask = 0x00ffffff) (value : UInt32) :
    ∃ machine, s.push ui w bytes value = some { s with
        cpu := { s.cpu with dar := s.cpu.dar.set 15 (s.cpu.dar 15 - bytes) }
        machine } ∧
      BusWrite.step ui s.machine ⟨w, address68k (s.cpu.dar 15 - bytes), value⟩ = some machine :=
  Core.write_total size ui w (s := { s with
    cpu := { s.cpu with dar := s.cpu.dar.set 15 (s.cpu.dar 15 - bytes) } }) mask _ value

/-- So is a stack frame: the program counter and below it the status register. -/
theorem m68kiStackFrame0000_total (size : SoundRamSize n) (ui : Ui) {s : Core n}
    (type : s.cpu.cpuType = 1) (mask : s.cpu.addressMask = 0x00ffffff) (pc sr vector : UInt32) :
    ∃ dar machine, m68kiStackFrame0000 ui s pc sr vector
        = some { s with cpu := { s.cpu with dar }, machine } ∧
      dar 15 = s.cpu.dar 15 - 6 ∧
      run (BusWrite.step ui) s.machine [⟨.long, address68k (s.cpu.dar 15 - 4), pc⟩,
        ⟨.word, address68k (s.cpu.dar 15 - 6), sr⟩] = some machine := by
  obtain ⟨machine₁, h₁, hlong⟩ := Core.push_total size ui .long 4 mask pc
  obtain ⟨machine₂, h₂, hword⟩ := Core.push_total size ui .word 2 (s := { s with
    cpu := { s.cpu with dar := s.cpu.dar.set 15 (s.cpu.dar 15 - 4) }
    machine := machine₁ }) mask sr
  have htop : s.cpu.dar 15 - 4 - 2 = s.cpu.dar 15 - 6 := by
    rw [UInt32.sub_eq_add_neg, UInt32.sub_eq_add_neg, UInt32.sub_eq_add_neg, UInt32.add_assoc]
    rfl
  have hbelow : (s.cpu.dar.set 15 (s.cpu.dar 15 - 4)) 15 - 2 = s.cpu.dar 15 - 6 := htop
  dsimp only at h₂ hword
  rw [hbelow] at h₂ hword
  refine ⟨_, machine₂, Option.bind_eq_some_iff.mpr ⟨s, if_pos type,
    Option.bind_eq_some_iff.mpr ⟨_, h₁, h₂⟩⟩, by simp, ?_⟩
  rw [run_cons, hlong, Option.bind_some, run_cons, hword]
  rfl

/-- An exception vector, which lies in the ROM. -/
def romVector (rom : CArray UInt8 262144) (vector : UInt8) : UInt32 :=
  romLong rom ⟨4 * vector.toNat, by have := vector.toNat_lt; omega⟩

theorem Core.read_vector {s : Core n} (mask : s.cpu.addressMask = 0x00ffffff)
    (vbr : s.cpu.vbr = 0) {vector : UInt32} (low : vector.toNat < 256) :
    s.read .long ((vector <<< 2) + s.cpu.vbr)
      = some (romVector s.machine.mainRom vector.toUInt8, s) := by
  have hnat : (vector <<< 2).toNat = 4 * vector.toNat := by
    rw [UInt32.toNat_shiftLeft, Nat.shiftLeft_eq]
    change vector.toNat * 4 % 2 ^ 32 = _
    omega
  have haddress : ((vector <<< 2) + s.cpu.vbr) &&& s.cpu.addressMask = vector <<< 2 := by
    rw [mask, vbr, UInt32.add_zero, ← UInt32.toNat_inj, UInt32.toNat_and,
      show (0x00ffffff : UInt32).toNat = 2 ^ 24 - 1 from rfl, BitField.and_ones, hnat]
    omega
  have hvalue := m68kReadMemory32_rom s.machine (a := vector <<< 2) (by omega)
  have hlong : romLong s.machine.mainRom ⟨(vector <<< 2).toNat, by omega⟩
      = romVector s.machine.mainRom vector.toUInt8 := by
    rw [romVector]
    congr 2
    rw [hnat, UInt32.toNat_toUInt8, Nat.mod_eq_of_lt low]
  exact Option.bind_eq_some_iff.mpr ⟨_, (congrArg (m68kReadMemory32 s.machine) haddress).trans
    (hvalue.trans (congrArg (fun v => some (v, s.machine)) hlong)), rfl⟩

/-- Where the service of an interrupt goes: to its vector, or to that of uninitialized
interrupts when it is zero. -/
def interruptPc (rom : CArray UInt8 262144) (level : UInt32) : UInt32 :=
  if romVector rom (24 + level).toUInt8 = 0 then romVector rom 15
  else romVector rom (24 + level).toUInt8

/-- From `s` to `t` the core has serviced an interrupt in supervisor mode: it stands at the vector,
the mask is at the level, and the program counter and the status register are in a frame below the
stack pointer. -/
structure Serviced (ui : Ui) (level : UInt32) (s t : Core n) : Prop where
  pc : t.cpu.pc = interruptPc s.machine.mainRom level
  sFlag : t.cpu.sFlag = 4
  intMask : t.cpu.intMask = level <<< 8
  intLevel : t.cpu.intLevel = 0
  stackPointer : t.cpu.dar 15 = s.cpu.dar 15 - 6
  frame : run (BusWrite.step ui) s.machine [⟨.long, address68k (s.cpu.dar 15 - 4), s.cpu.pc⟩,
    ⟨.word, address68k (s.cpu.dar 15 - 6), m68kiGetSr s.cpu⟩] = some t.machine
  log : t.log = s.log ++ [.interrupt level (24 + level)]

/-- Interrupts use the autovectors. -/
theorem exceptionCycles_autovector {level : UInt32} (low : level.toNat < 8) :
    exceptionCycles (24 + level) = some 44 := by
  obtain ⟨k, hk⟩ : ∃ k, level.toNat = k := ⟨_, rfl⟩
  obtain rfl : level = UInt32.ofNat k := by rw [← hk, UInt32.ofNat_toNat]
  rw [hk] at low
  interval_cases k <;> rfl

/-- A core that takes exceptions services an interrupt of any level. -/
theorem m68kiExceptionInterrupt_total (size : SoundRamSize n) (ui : Ui) {s : Core n}
    (ready : TakesExceptions s.cpu) {level : UInt32} (low : level.toNat < 8) :
    ∃ t, m68kiExceptionInterrupt ui s level = some t ∧ t.cpu.stopped = 0 ∧
      t.cpu.nmiPending = s.cpu.nmiPending ∧ Serviced ui level s t := by
  have hstopped : s.cpu.stopped &&& ~~~1 = 0 := by rw [ready.stopped]; decide
  obtain ⟨dar, sp, hflag, hdar⟩ := m68kiSetSFlag_supervisor (c := { s.cpu with
    stopped := s.cpu.stopped &&& ~~~1
    t1Flag := 0
    t0Flag := 0 }) ready.sFlag
  have hvector : (24 + level).toNat < 256 := by
    rw [UInt32.toNat_add]
    exact (Nat.mod_le _ _).trans_lt (by change 24 + _ < _; omega)
  -- The core when the vector is fetched: it lies in the ROM.
  let s₁ : Core n := { s with
    cpu := { s.cpu with
      stopped := s.cpu.stopped &&& ~~~1
      t1Flag := 0
      t0Flag := 0
      dar, sp
      sFlag := 4
      intMask := level <<< 8 }
    log := s.log ++ [.interrupt level (24 + level)] }
  have hread := Core.read_vector (s := s₁) ready.addressMask ready.vbr hvector
  have huninitialized := Core.read_vector (s := s₁) ready.addressMask ready.vbr
    (show (15 : UInt32).toNat < 256 by decide)
  have hnewPc : (if romVector s.machine.mainRom (24 + level).toUInt8 = 0 then
      s₁.read .long (((15 : UInt32) <<< 2) + s₁.cpu.vbr)
        else some (romVector s.machine.mainRom (24 + level).toUInt8, s₁))
      = some (interruptPc s.machine.mainRom level, s₁) := by
    rw [interruptPc]
    split
    · exact huninitialized
    · rfl
  obtain ⟨dar', machine, ht, hdar', hframe⟩ := m68kiStackFrame0000_total size ui (s := s₁)
    ready.cpuType ready.addressMask s.cpu.pc (m68kiGetSr s.cpu) (24 + level)
  have htop : s₁.cpu.dar 15 = s.cpu.dar 15 := hdar
  rw [htop] at hdar' hframe
  unfold m68kiExceptionInterrupt
  rw [if_neg (not_not_intro hstopped)]
  exact ⟨_, Option.bind_eq_some_iff.mpr ⟨_, Option.bind_eq_some_iff.mpr ⟨_, hflag, rfl⟩,
    Option.bind_eq_some_iff.mpr ⟨_, hread, Option.bind_eq_some_iff.mpr ⟨_, hnewPc,
    Option.bind_eq_some_iff.mpr ⟨_, ht, Option.bind_eq_some_iff.mpr
      ⟨44, exceptionCycles_autovector low, rfl⟩⟩⟩⟩⟩,
    hstopped, rfl, rfl, rfl, rfl, rfl, hdar', hframe, rfl⟩

/-- A `m68k_execute` with cycles left after those of a reset checks for interrupts before its
loop. -/
theorem beginExecute_of_check {ui : Ui} {s t : Core n} {k : UInt32}
    (cycles : s.cpu.resetCycles = k) {c : Int} (left : cpuCycles - (k.toNat : Int) = c)
    (positive : 0 < c)
    (check : m68kiCheckInterrupts ui { s with cpu := { s.cpu with
      resetCycles := 0
      remainingCycles := c
      initialCycles := c } } = some t)
    (running : t.cpu.stopped = 0) : beginExecute ui s cpuCycles = some ⟨t, .loop⟩ := by
  unfold beginExecute
  dsimp only
  rw [cycles, left, if_neg fun h => absurd h.2 (not_le.mpr positive)]
  exact Option.bind_eq_some_iff.mpr ⟨t, check, if_pos running⟩

/-- The timer puts its request on the pins, whatever is there. -/
theorem m68kSetIrq_timer (c : Cpu) : m68kSetIrq c 1 = { c with intLevel := 0x0100 } := by
  rw [m68kSetIrq, if_neg fun h => absurd h.2 (by dsimp only; decide)]
  rfl

/-- A slice that neither the watchdog nor the user ends is followed by another one. -/
theorem Running.step_endSlice {ui : Ui} {ops : Opcodes} {s : Core n} {event : EventEffect}
    {readable : Bool} (stay : (!watchdogTriggered (tick s.machine) && !event.quit) = true) :
    Running.step ui ops ⟨s, .returned⟩ (.endSlice event readable) = some ⟨{ s with
      cpu := { s.cpu with intLevel := 0x0100 }
      machine := (sliceEnd s.machine event readable).2 }, .call⟩ := by
  rw [Running.step, m68kSetIrq_timer]
  · simp only [stay, if_true]
  · rfl

/-- The first `m68k_execute` after a reset services a pending level 7 interrupt. -/
theorem beginExecute_nmi (size : SoundRamSize n) (ui : Ui) {s : Core n}
    (ready : TakesExceptions s.cpu) (cycles : s.cpu.resetCycles = 40)
    (pending : s.cpu.nmiPending = 1) :
    ∃ t, beginExecute ui s cpuCycles = some ⟨t, .loop⟩ ∧ t.cpu.nmiPending = 0 ∧
      Serviced ui 7 s t := by
  obtain ⟨t, ht, hstopped, hpending, serviced⟩ := m68kiExceptionInterrupt_total size ui
    (s := { s with cpu := { s.cpu with
      resetCycles := 0
      remainingCycles := 32728
      initialCycles := 32728
      nmiPending := 0 } })
    ⟨ready.cpuType, ready.sFlag, ready.stopped, ready.vbr, ready.addressMask⟩
    (show (7 : UInt32).toNat < 8 by decide)
  refine ⟨t, beginExecute_of_check cycles rfl (by decide) ?_ hstopped, hpending, serviced.pc,
    serviced.sFlag, serviced.intMask, serviced.intLevel, serviced.stackPointer, serviced.frame,
    serviced.log⟩
  rw [m68kiCheckInterrupts, if_pos (by dsimp only; rw [pending]; decide)]
  exact ht

/-- A core that has just serviced an interrupt, with no level 7 interrupt pending, is quiet. -/
theorem Serviced.quiet {ui : Ui} {level : UInt32} {s t : Core n} (h : Serviced ui level s t)
    (pending : t.cpu.nmiPending = 0) : Quiet t.cpu :=
  ⟨pending, by rw [h.intLevel]; decide⟩

/-! ### From `main` on -/

/-- What `main` has done to the core when it enters the main loop: the reset has loaded the
stack pointer and the program counter and set the mask to 7, and a warm boot has requested
level 7. -/
structure Booted (l : Loaded n) (complete : Bool) (s₀ : Running n) : Prop where
  phase : s₀.phase = .call
  stackPointer : s₀.core.cpu.dar 15 = romLong l.mainRom 0
  programCounter : s₀.core.cpu.pc = romLong l.mainRom 4
  log : s₀.core.log = [.reset (romLong l.mainRom 0) (romLong l.mainRom 4)]
  ready : TakesExceptions s₀.core.cpu
  resetCycles : s₀.core.cpu.resetCycles = 40
  sr : m68kiGetSr s₀.core.cpu = 0x2704
  machine : s₀.core.machine = { l.machine with
    framebuffer := s₀.core.machine.framebuffer
    vramTouched := 1 }
  intLevel : s₀.core.cpu.intLevel = 0
  nmiPending : s₀.core.cpu.nmiPending = if complete then 1 else 0

theorem boot_booted (ui : Ui) (hn : videoBytes ≤ n) (l : Loaded n) (complete : Bool) :
    ∃ s₀, boot ui l complete = some s₀ ∧ Booted l complete s₀ := by
  have hrequest : (if complete then m68kSetIrq Cpu.initial 7 else Cpu.initial).nmiPending
      = if complete then 1 else 0 := by cases complete <;> decide
  have hflags : m68kiGetSr { (if complete then m68kSetIrq Cpu.initial 7 else Cpu.initial) with
      sFlag := 4
      intMask := 0x0700 } = 0x2704 := by cases complete <;> decide
  obtain ⟨t, hreset, hsp, hpc, ready, hcycles, hsr, hlevel, hpending, hmachine, hlog⟩ :=
    m68kPulseReset_spec
      ⟨m68kSetCpuType (m68kInit (if complete then m68kSetIrq Cpu.initial 7 else Cpu.initial)),
        l.machine, []⟩ rfl (by cases complete <;> rfl) (by cases complete <;> rfl) rfl
  refine ⟨_, Option.bind_eq_some_iff.mpr ⟨t, hreset, Option.bind_eq_some_iff.mpr
    ⟨_, updateFramebuffer_eq ui t.machine hn, rfl⟩⟩, ?_⟩
  refine ⟨rfl, hsp, hpc, hlog, ready, hcycles, ?_, by rw [hmachine], hlevel,
    hpending.trans hrequest⟩
  cases complete <;> exact hsr.trans hflags

/-- The RAM file holds an image of the whole RAM. -/
def CompleteImage (n : Nat) (ramFile : Option (List UInt8)) : Prop :=
  ∃ bytes, ramFile = some bytes ∧ n ≤ bytes.length

theorem loadRam_complete (ramFile : Option (List UInt8)) :
    (loadRam (n := n) ramFile).2 = true ↔ CompleteImage n ramFile := by
  cases ramFile <;> simp [loadRam, CompleteImage]

/-- `main` from the RAM file to the main loop. -/
def bootFrom (ui : Ui) (l : Loaded n) (ramFile : Option (List UInt8)) : Option (Running n) :=
  boot ui { l with mainRam := (loadRam ramFile).1 } (loadRam (n := n) ramFile).2

theorem bootFrom_booted (ui : Ui) (l : Loaded ramSize) (ramFile : Option (List UInt8)) :
    ∃ s₀, bootFrom ui l ramFile = some s₀ ∧
      Booted { l with mainRam := (loadRam ramFile).1 } (loadRam (n := ramSize) ramFile).2 s₀ :=
  boot_booted ui (by decide) _ _

/-- A complete RAM image is followed by exactly one level 7 interrupt, with vector 31, that
the first `m68k_execute` services after the reset and before any instruction: the guest begins at
that vector with the reset's program counter and status register on the stack. Without one there
is no level 7 interrupt in any run. -/
theorem warm_boot_once (ui : Ui) (ops : Opcodes) (l : Loaded ramSize)
    (ramFile : Option (List UInt8)) :
    ∃ s₀, bootFrom ui l ramFile = some s₀ ∧
      s₀.core.cpu.dar 15 = romLong l.mainRom 0 ∧ s₀.core.cpu.pc = romLong l.mainRom 4 ∧
      s₀.core.log = [.reset (romLong l.mainRom 0) (romLong l.mainRom 4)] ∧
      m68kiGetSr s₀.core.cpu = 0x2704 ∧ s₀.core.machine.mainRom = l.mainRom ∧
      (CompleteImage ramSize ramFile →
        ∃ s₁, s₀.step ui ops .beginExecute = some s₁ ∧ Serviced ui 7 s₀.core s₁.core ∧
          s₁.core.log = s₀.core.log ++ [.interrupt 7 31] ∧
          ∀ x xs r, run (Running.step ui ops) s₀ (x :: xs) = some r →
            ∃ es, r.core.log = s₁.core.log ++ es ∧ ∀ e ∈ es, e.level ≠ some 7) ∧
      (¬ CompleteImage ramSize ramFile →
        ∀ xs r, run (Running.step ui ops) s₀ xs = some r →
          ∃ es, r.core.log = s₀.core.log ++ es ∧ ∀ e ∈ es, e.level ≠ some 7) := by
  obtain ⟨s₀, hboot, booted⟩ := bootFrom_booted ui l ramFile
  obtain ⟨core, phase⟩ := s₀
  obtain rfl : phase = .call := booted.phase
  refine ⟨_, hboot, booted.stackPointer, booted.programCounter, booted.log, booted.sr,
    by rw [booted.machine]; rfl, ?_, ?_⟩
  · intro complete
    have hpending : core.cpu.nmiPending = 1 := by
      rw [booted.nmiPending, (loadRam_complete ramFile).mpr complete]; rfl
    obtain ⟨t, hexecute, hserved, serviced⟩ :=
      beginExecute_nmi soundRamSize_ramSize ui booted.ready booted.resetCycles hpending
    refine ⟨_, hexecute, serviced, serviced.log, ?_⟩
    intro x xs r h
    obtain ⟨s₁, hstep, hrest⟩ := Option.bind_eq_some_iff.mp h
    -- No other step is in phase here.
    cases x with
    | beginExecute =>
      obtain rfl := Option.some.inj (hexecute.symm.trans hstep)
      exact (Running.run_noNmi hrest (serviced.quiet hserved)).log
    | instruction => cases hstep
    | endSlice event readable => cases hstep
  · intro incomplete xs r h
    have hpending : core.cpu.nmiPending = 0 := by
      rw [booted.nmiPending, if_neg fun h => incomplete ((loadRam_complete ramFile).mp h)]
    have hlevel : core.cpu.intLevel >>> 8 ≠ 7 := by
      rw [booted.intLevel]; decide
    exact (Running.run_noNmi h ⟨hpending, hlevel⟩).log

end Kyacopycat
