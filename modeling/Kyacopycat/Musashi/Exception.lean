import Kyacopycat.Lib.FrameStack
import Kyacopycat.Musashi.Stack
import Kyacopycat.WarmBoot
import Mathlib.Logic.Relation
import Mathlib.Tactic.IntervalCases

/-!
Exceptions, subroutine calls and their returns.

An exception stacks the status register and the program counter on the supervisor stack, a call
stacks the program counter on the stack of its mode. `Control` is a step of the core together with
the list of what has been entered and not left yet, the contexts.

* `Nested.entered`: entering stores the frame of its context and leaves the other frames alone.
* `traps_control` to `m68kOpRte32_control`: what the instructions do are such steps.
* `returns_resume`: in every run whose returns are balanced, a return resumes the context that
  was entered last.
-/

namespace Kyacopycat

open BigEndian FrameStack

variable {n : Nat}

/-! ### Program flow -/

/-- `m68ki_jump`. -/
def m68kiJump (s : Core n) (newPc : UInt32) : Core n := { s with cpu := { s.cpu with pc := newPc } }

/-- `m68ki_jump_vector`. -/
def m68kiJumpVector (s : Core n) (vector : UInt32) : Option (Core n) := do
  let s := m68kiJump s ((vector <<< 2) + s.cpu.vbr)
  let (newPc, s) ← s.read .long s.cpu.pc
  return m68kiJump s newPc

/-- `USE_CYCLES`. -/
def Core.useCycles (s : Core n) (cycles : Int) : Core n :=
  { s with cpu := { s.cpu with remainingCycles := s.cpu.remainingCycles - cycles } }

/-! ### Exceptions -/

/-- The exceptions that stack `pc`. -/
def Core.exception (ui : Ui) (ops : Opcodes) (pc : Cpu → UInt32) (vector : UInt32) (s : Core n) :
    Option (Core n) := do
  let (sr, cpu) ← m68kiInitException s.cpu
  let s := { s with cpu }
  let s ← m68kiStackFrame0000 ui s (pc s.cpu) sr vector
  let s ← m68kiJumpVector s vector
  let cycles ← exceptionCycles vector
  -- the cycles of the instruction are undone
  return s.useCycles (cycles.toNat - (ops.cycles s.cpu.ir).toNat)

/-- `m68ki_exception_trap`. -/
def m68kiExceptionTrap (ui : Ui) (ops : Opcodes) (vector : UInt32) (s : Core n) : Option (Core n) :=
  s.exception ui ops Cpu.pc vector

/-- `m68ki_exception_trapN`. -/
def m68kiExceptionTrapN (ui : Ui) (ops : Opcodes) (vector : UInt32) (s : Core n) :
    Option (Core n) :=
  s.exception ui ops Cpu.pc vector

/-- `m68ki_exception_privilege_violation`. -/
def m68kiExceptionPrivilegeViolation (ui : Ui) (ops : Opcodes) (s : Core n) : Option (Core n) :=
  s.exception ui ops Cpu.ppc 8

/-- `m68ki_exception_1010`. -/
def m68kiException1010 (ui : Ui) (ops : Opcodes) (s : Core n) : Option (Core n) :=
  s.exception ui ops Cpu.ppc 10

/-- `m68ki_exception_1111`. -/
def m68kiException1111 (ui : Ui) (ops : Opcodes) (s : Core n) : Option (Core n) :=
  s.exception ui ops Cpu.ppc 11

/-- `m68ki_exception_illegal`. -/
def m68kiExceptionIllegal (ui : Ui) (ops : Opcodes) (s : Core n) : Option (Core n) :=
  s.exception ui ops Cpu.ppc 4

/-- `m68k_op_trap`. -/
def m68kOpTrap (ui : Ui) (ops : Opcodes) (s : Core n) : Option (Core n) :=
  m68kiExceptionTrapN ui ops (32 + (s.cpu.ir &&& 0xf).toUInt32) s

/-- `m68k_op_trapv`. -/
def m68kOpTrapv (ui : Ui) (ops : Opcodes) (s : Core n) : Option (Core n) :=
  if cond .vc s.cpu.flags then some s else m68kiExceptionTrap ui ops 7 s

/-- `m68k_op_rte_32` up to its check for interrupts. -/
def Core.leaveException (s : Core n) : Option (Core n) := do
  let (newSr, s) ← m68kiPull16 s
  let (newPc, s) ← m68kiPull32 s
  let s := m68kiJump s newPc
  let cpu ← m68kiSetSrNoint s.cpu newSr
  return { s with cpu }

/-- The end of `m68k_op_rte_32`: `CPU_INSTR_MODE` and `CPU_RUN_MODE` are normal again. -/
def Core.normalMode (s : Core n) : Core n :=
  { s with cpu := { s.cpu with instrMode := 0, runMode := 0 } }

/-- `m68k_op_rte_32`. -/
def m68kOpRte32 (ui : Ui) (ops : Opcodes) (s : Core n) : Option (Core n) :=
  if s.cpu.sFlag ≠ 0 then do
    let s ← s.leaveException
    let s ← m68kiCheckInterrupts ui s
    return s.normalMode
  else m68kiExceptionPrivilegeViolation ui ops s

/-! ### Subroutines -/

/-- The end of the calls: stack the program counter and go on at `target`. -/
def Core.call (ui : Ui) (target : UInt32) (s : Core n) : Option (Core n) := do
  let s ← m68kiPush32 ui s s.cpu.pc
  return m68kiJump s target

/-- `m68k_op_jsr_32`, for any mode of the effective address. -/
def m68kOpJsr32 (ui : Ui) (getEa : Core n → Option (UInt32 × Core n)) (s : Core n) :
    Option (Core n) := do
  let (ea, s) ← getEa s
  s.call ui ea

/-- `m68k_op_bsr_8`. -/
def m68kOpBsr8 (ui : Ui) (s : Core n) : Option (Core n) := do
  let s ← m68kiPush32 ui s s.cpu.pc
  return m68kiJump s (s.cpu.pc + s.cpu.ir.toUInt8.toInt8.toInt32.toUInt32)

/-- `m68k_op_bsr_16`. -/
def m68kOpBsr16 (ui : Ui) (s : Core n) : Option (Core n) := do
  let (offset, s) ← m68kiReadImm16 s
  let s ← m68kiPush32 ui s s.cpu.pc
  return m68kiJump s (s.cpu.pc - 2 + offset.toUInt16.toInt16.toInt32.toUInt32)

/-- `m68k_op_rts_32`. -/
def m68kOpRts32 (s : Core n) : Option (Core n) := do
  let (newPc, s) ← m68kiPull32 s
  return m68kiJump s newPc

/-! ### What entering does -/

theorem Cpu.stackPointer_supervisor {c : Cpu} (h : c.sFlag = 4) :
    c.stackPointer true = c.dar 15 := by
  rw [Cpu.stackPointer, h]
  rfl

/-- A read changes neither the core nor the RAM. -/
theorem Core.read_same {s t : Core n} {w : Width} {a v : UInt32} (hn : n ≤ 0x400000)
    (h : s.read w a = some (v, t)) :
    t.cpu = s.cpu ∧ t.machine.ram = s.machine.ram := by
  obtain ⟨⟨v', machine⟩, hread, h⟩ := Option.bind_eq_some_iff.mp h
  cases h
  obtain ⟨rfl, -⟩ := m68kReadMemory_lanes hn hread
  refine ⟨rfl, ?_⟩
  have hram := (readEffects_memory s.machine (laneAddresses w (a &&& s.cpu.addressMask))).mainRam
  unfold Machine.ram
  rw [hram]

/-- What the configuration and the programs keep of a core. -/
structure CoreOk (s : Core n) : Prop where
  status : StatusOk s.cpu
  cpuType : s.cpu.cpuType = 1
  addressMask : s.cpu.addressMask = 0x00ffffff

/-- What entering a context does: a number of `k` bytes is stacked on the stack of a mode, which
the core is in then. -/
structure Entered (mode : Bool) (k v : Nat) (s t : Core n) : Prop where
  ok : CoreOk t
  supervisor : t.cpu.supervisor = mode
  a7 : t.cpu.dar 15 = s.cpu.stackPointer mode - UInt32.ofNat k
  other : t.cpu.stackPointer (!mode) = s.cpu.stackPointer (!mode)
  ram : t.machine.ram = poke s.machine.ram (ramPlace (s.cpu.stackPointer mode) - k) k v

section Entering

variable {ui : Ui} {ops : Opcodes} {s t : Core n}

theorem m68kiInitException_eq (ok : StatusOk s.cpu) :
    m68kiInitException s.cpu = some (m68kiGetSr s.cpu,
      ({ s.cpu with t1Flag := 0, t0Flag := 0 } : Cpu).switch 4) := by
  have hswitch : m68kiSetSFlag { s.cpu with t1Flag := 0, t0Flag := 0 } 4
      = some (({ s.cpu with t1Flag := 0, t0Flag := 0 } : Cpu).switch 4) :=
    m68kiSetSFlag_eq ok.sFlag ok.mFlag (.inr rfl)
  rw [m68kiInitException, hswitch]
  rfl

/-- The core that an exception stacks its frame on. -/
def Core.initialized (s : Core n) : Core n :=
  { s with cpu := ({ s.cpu with t1Flag := 0, t0Flag := 0 } : Cpu).switch 4 }

/-- The status invariant looks at six fields. -/
theorem StatusOk.congr {c d : Cpu} (h : StatusOk c) (srMask : d.srMask = c.srMask)
    (t1Flag : d.t1Flag = c.t1Flag) (t0Flag : d.t0Flag = c.t0Flag) (sFlag : d.sFlag = c.sFlag)
    (mFlag : d.mFlag = c.mFlag) (intMask : d.intMask = c.intMask) : StatusOk d := by
  obtain ⟨srMask', t1Flag', t0Flag', sFlag', mFlag', intMask'⟩ := h
  constructor
  · rw [srMask, srMask']
  · rwa [t1Flag]
  · rw [t0Flag, t0Flag']
  · rwa [sFlag]
  · rw [mFlag, mFlag']
  · rw [intMask, intMask']

/-- Registers, the program counter and the devices may be changed. -/
theorem CoreOk.congr {s t : Core n} (ok : CoreOk s)
    (same : (t.cpu.srMask, t.cpu.t1Flag, t.cpu.t0Flag, t.cpu.sFlag, t.cpu.mFlag, t.cpu.intMask,
        t.cpu.cpuType, t.cpu.addressMask)
      = (s.cpu.srMask, s.cpu.t1Flag, s.cpu.t0Flag, s.cpu.sFlag, s.cpu.mFlag, s.cpu.intMask,
        s.cpu.cpuType, s.cpu.addressMask)) : CoreOk t := by
  simp only [Prod.mk.injEq] at same
  obtain ⟨srMask, t1Flag, t0Flag, sFlag, mFlag, intMask, cpuType, addressMask⟩ := same
  exact ⟨ok.status.congr srMask t1Flag t0Flag sFlag mFlag intMask, cpuType.trans ok.cpuType,
    addressMask.trans ok.addressMask⟩

theorem Core.initialized_ok (ok : CoreOk s) : CoreOk s.initialized where
  status := ⟨ok.status.srMask, .inl rfl, rfl, .inr rfl, ok.status.mFlag, ok.status.intMask⟩
  cpuType := ok.cpuType
  addressMask := ok.addressMask

theorem Core.initialized_stackPointer (ok : CoreOk s) (b : Bool) :
    s.initialized.cpu.stackPointer b = s.cpu.stackPointer b :=
  Cpu.switch_stackPointer (c := { s.cpu with t1Flag := 0, t0Flag := 0 }) ok.status.sFlag (.inr rfl)
    b

theorem Core.initialized_a7 (ok : CoreOk s) :
    s.initialized.cpu.dar 15 = s.cpu.stackPointer true := by
  rw [← Cpu.stackPointer_supervisor (c := s.initialized.cpu) rfl]
  exact Core.initialized_stackPointer ok true

/-- What follows in an exception keeps the user stack pointer. -/
theorem Core.initialized_user (ok : CoreOk s) (sFlag : t.cpu.sFlag = 4)
    (sp : t.cpu.sp = s.initialized.cpu.sp) :
    t.cpu.stackPointer false = s.cpu.stackPointer false := by
  have hmode : t.cpu.supervisor = true ∧ s.initialized.cpu.supervisor = true := by
    rw [Cpu.supervisor, sFlag]
    exact ⟨rfl, rfl⟩
  have hother := Cpu.stackPointer_other (c := s.initialized.cpu) sFlag sp
  rw [hmode.1, hmode.2] at hother
  exact hother.trans (Core.initialized_stackPointer ok false)

theorem frameValue_lt {pc sr : UInt32} (h : sr.toNat < 65536) : frameValue pc sr < 256 ^ 6 := by
  have hpc := pc.toNat_lt
  unfold frameValue
  omega

theorem getSr_lt {c : Cpu} (ok : StatusOk c) : (m68kiGetSr c).toNat < 65536 := by
  rw [← (getSr_fields ok).implemented, srBits, UInt32.toNat_and]
  exact Nat.lt_of_le_of_lt Nat.and_le_right (by decide)

/-- An exception stacks the program counter and the status register. -/
theorem Core.exception_entered (size : SoundRamSize n) {pc : Cpu → UInt32} {vector : UInt32}
    (ok : CoreOk s) (room : InRamBelow n (s.cpu.stackPointer true) 6)
    (h : s.exception ui ops pc vector = some t) :
    Entered true 6 (frameValue (pc s.initialized.cpu) (m68kiGetSr s.cpu)) s t := by
  rw [Core.exception, m68kiInitException_eq ok.status] at h
  simp only [Option.bind_eq_bind, Option.bind_some] at h
  change (m68kiStackFrame0000 ui s.initialized (pc s.initialized.cpu) (m68kiGetSr s.cpu)
    vector).bind _ = some t at h
  have ok' := Core.initialized_ok ok
  rw [m68kiStackFrame0000_eq size ok'.addressMask ok'.cpuType, Option.bind_some] at h
  obtain ⟨u, hu, h⟩ := Option.bind_eq_some_iff.mp h
  obtain ⟨cycles, -, h⟩ := Option.bind_eq_some_iff.mp h
  cases h
  obtain ⟨⟨v, u⟩, hread, hu⟩ := Option.bind_eq_some_iff.mp hu
  cases hu
  obtain ⟨hcpu, hram⟩ := Core.read_same size.upper hread
  obtain ⟨cpu, machine, log⟩ := u
  obtain rfl : cpu = _ := hcpu
  have ha7 := Core.initialized_a7 ok
  refine ⟨ok'.congr rfl, rfl, ?_, Core.initialized_user ok rfl rfl, ?_⟩
  · rw [← ha7]
    show (s.initialized.framed ui (pc s.initialized.cpu) (m68kiGetSr s.cpu)).cpu.dar 15 = _
    exact Core.framed_a7
  · rw [← ha7] at room ⊢
    exact hram.trans (Core.ram_framed size.upper room)

theorem level_on_pins {level : UInt32} (h : level.toNat ≤ 7) :
    (level <<< (8 : UInt32)) &&& (0x0700 : UInt32) = level <<< (8 : UInt32) := by
  obtain ⟨k, hk, rfl⟩ : ∃ k ≤ 7, level = UInt32.ofNat k := ⟨_, h, UInt32.ofNat_toNat.symm⟩
  interval_cases k <;> rfl

/-- The vectors in the ROM can be fetched. -/
theorem m68kiJumpVector_eq {vector : UInt32} (mask : s.cpu.addressMask = 0x00ffffff)
    (vbr : s.cpu.vbr = 0) (hv : vector.toNat ≤ 255) :
    m68kiJumpVector s vector
      = some (m68kiJump s (romVector s.machine.mainRom vector.toUInt8)) := by
  have hread := Core.read_vector (s := m68kiJump s (vector <<< 2 + s.cpu.vbr)) mask vbr
    (show vector.toNat < 256 by omega)
  exact Option.bind_eq_some_iff.mpr ⟨_, hread, rfl⟩

theorem isSome_ite {α : Type} {p : Prop} [Decidable p] {a : α} {o : Option α} (h : o.isSome) :
    (if p then some a else o).isSome := by
  by_cases hp : p
  · rw [if_pos hp]
    rfl
  · rwa [if_neg hp]

/-- Every vector has an entry in the cycle table. -/
theorem exceptionCycles_isSome {vector : UInt32} (hv : vector ≤ 255) :
    (exceptionCycles vector).isSome := by
  unfold exceptionCycles
  iterate 12 refine isSome_ite ?_
  rw [if_pos hv]
  rfl

/-- An exception with its vector in the ROM is always taken, and goes on there. -/
theorem Core.exception_total (size : SoundRamSize n) (ui : Ui) (ops : Opcodes)
    (pc : Cpu → UInt32) {vector : UInt32} (ok : CoreOk s) (vbr : s.cpu.vbr = 0)
    (hv : vector.toNat ≤ 255) :
    ∃ t, s.exception ui ops pc vector = some t ∧
      t.cpu.pc = romVector s.machine.mainRom vector.toUInt8 := by
  have ok' := Core.initialized_ok ok
  obtain ⟨u, hu⟩ : ∃ u, u = s.initialized.framed ui (pc s.initialized.cpu) (m68kiGetSr s.cpu) :=
    ⟨_, rfl⟩
  have hframe : m68kiStackFrame0000 ui s.initialized (pc s.initialized.cpu) (m68kiGetSr s.cpu)
      vector = some u := by
    rw [hu]
    exact m68kiStackFrame0000_eq size ok'.addressMask ok'.cpuType
  have hrom : u.machine.mainRom = s.machine.mainRom := by
    rw [hu]
    exact (writtenAll_sameDevices ui _ _).mainRom.trans (writtenAll_sameDevices ui _ _).mainRom
  have hjump := m68kiJumpVector_eq (s := u) (by rw [hu]; exact ok.addressMask)
    (by rw [hu]; exact vbr) hv
  rw [hrom] at hjump
  obtain ⟨cycles, hcycles⟩ := Option.isSome_iff_exists.mp
    (exceptionCycles_isSome (UInt32.le_iff_toNat_le.mpr hv))
  refine ⟨(m68kiJump u (romVector s.machine.mainRom vector.toUInt8)).useCycles
    (cycles.toNat - (ops.cycles u.cpu.ir).toNat),
    Option.bind_eq_some_iff.mpr ⟨_, m68kiInitException_eq ok.status, ?_⟩, rfl⟩
  exact Option.bind_eq_some_iff.mpr ⟨u, hframe, Option.bind_eq_some_iff.mpr
    ⟨_, hjump, Option.bind_eq_some_iff.mpr ⟨_, hcycles, rfl⟩⟩⟩

/-- So does an interrupt, unless the core is halted. -/
theorem m68kiExceptionInterrupt_entered (size : SoundRamSize n) {level : UInt32} (ok : CoreOk s)
    (running : s.cpu.stopped &&& ~~~1 = 0) (hlevel : level.toNat ≤ 7)
    (room : InRamBelow n (s.cpu.stackPointer true) 6)
    (h : m68kiExceptionInterrupt ui s level = some t) :
    Entered true 6 (frameValue s.cpu.pc (m68kiGetSr s.cpu)) s t := by
  -- the core that accepts the interrupt
  obtain ⟨r, hr⟩ : ∃ r : Core n, r = { s with
    cpu := { s.cpu with stopped := s.cpu.stopped &&& ~~~1 } } := ⟨_, rfl⟩
  have okR : CoreOk r := by
    rw [hr]
    exact ok.congr rfl
  have ok' := Core.initialized_ok okR
  have ha7 : r.initialized.cpu.dar 15 = s.cpu.stackPointer true := by
    rw [Core.initialized_a7 okR, hr]
    rfl
  have hsr : m68kiGetSr r.cpu = m68kiGetSr s.cpu ∧ r.initialized.cpu.pc = s.cpu.pc ∧
      r.machine = s.machine := by
    rw [hr]
    exact ⟨rfl, rfl, rfl⟩
  unfold m68kiExceptionInterrupt at h
  dsimp only at h
  rw [if_neg (not_not_intro running)] at h
  obtain ⟨⟨sr, c⟩, hinit, h⟩ := Option.bind_eq_some_iff.mp h
  obtain ⟨⟨newPc, s₁⟩, hread, h⟩ := Option.bind_eq_some_iff.mp h
  obtain ⟨⟨newPc', s₂⟩, hdefault, h⟩ := Option.bind_eq_some_iff.mp h
  obtain ⟨s₃, hpush, h⟩ := Option.bind_eq_some_iff.mp h
  obtain ⟨cycles, -, h⟩ := Option.bind_eq_some_iff.mp h
  have hinit' := m68kiInitException_eq okR.status
  rw [hr] at hinit'
  obtain ⟨rfl, rfl⟩ := Prod.mk.inj (Option.some.inj (hinit.symm.trans hinit'))
  obtain ⟨hcpu₁, hram₁⟩ := Core.read_same size.upper hread
  have hsame₂ : s₂.cpu = s₁.cpu ∧ s₂.machine.ram = s₁.machine.ram := by
    dsimp only at hdefault
    split at hdefault
    · exact Core.read_same size.upper hdefault
    · cases hdefault
      exact ⟨rfl, rfl⟩
  obtain ⟨hcpu₂, hram₂⟩ := hsame₂
  -- up to the mask it is the core that an exception stacks its frame on
  have hcpu : s₂.cpu = { r.initialized.cpu with intMask := level <<< 8 } := by
    rw [hcpu₂, hcpu₁, hr]
    rfl
  have ok₂ : CoreOk s₂ := by
    refine ⟨?_, ?_, ?_⟩ <;> rw [hcpu]
    · exact ⟨ok'.status.srMask, ok'.status.t1Flag, ok'.status.t0Flag, ok'.status.sFlag,
        ok'.status.mFlag, level_on_pins hlevel⟩
    · exact ok'.cpuType
    · exact ok'.addressMask
  have ha7₂ : s₂.cpu.dar 15 = s.cpu.stackPointer true := by
    rw [hcpu]
    exact ha7
  have hpc₂ : s₂.cpu.pc = s.cpu.pc := by
    rw [hcpu]
    exact hsr.2.1
  have hram : s₂.machine.ram = s.machine.ram := hram₂.trans hram₁
  rw [m68kiStackFrame0000_eq size ok₂.addressMask ok₂.cpuType, hpc₂] at hpush
  obtain rfl := Option.some.inj hpush
  cases h
  have hflag : s₂.cpu.sFlag = 4 := by
    rw [hcpu]
    rfl
  refine ⟨ok₂.congr rfl, ?_, ?_, ?_, ?_⟩
  · show s₂.cpu.supervisor = true
    rw [Cpu.supervisor, hflag]
    rfl
  · rw [← ha7₂]
    show (s₂.framed ui s.cpu.pc (m68kiGetSr r.cpu)).cpu.dar 15 = _
    exact Core.framed_a7
  · have hsp : s₂.cpu.sp = r.initialized.cpu.sp := by rw [hcpu]
    refine (Core.initialized_user okR (by exact hflag) (by exact hsp)).trans ?_
    rw [hr]
    rfl
  · rw [← ha7₂] at room ⊢
    rw [← hram]
    exact Core.ram_framed size.upper room

/-- A call stacks the program counter. -/
theorem Core.call_entered (size : SoundRamSize n) {target : UInt32} (ok : CoreOk s)
    (room : InRamBelow n (s.cpu.dar 15) 4) (h : s.call ui target = some t) :
    Entered s.cpu.supervisor 4 s.cpu.pc.toNat s t := by
  rw [Core.call, m68kiPush32, Core.push_eq size ok.addressMask] at h
  cases h
  refine ⟨ok.congr rfl, rfl, ?_, Cpu.stackPointer_other rfl rfl, ?_⟩
  · rw [Cpu.stackPointer_active]
    show (s.pushed ui .long 4 s.cpu.pc).cpu.dar 15 = _
    exact Core.pushed_a7
  · rw [Cpu.stackPointer_active]
    exact Core.ram_pushed size.upper rfl room

/-- A call can always be made. -/
theorem Core.call_total (size : SoundRamSize n) (ui : Ui) (target : UInt32) (ok : CoreOk s) :
    ∃ t, s.call ui target = some t ∧ t.cpu.pc = target ∧ t.cpu.vbr = s.cpu.vbr := by
  rw [Core.call, m68kiPush32, Core.push_eq size ok.addressMask]
  exact ⟨_, rfl, rfl, rfl⟩

end Entering

/-! ### Contexts -/

/-- What has been entered: an exception of a core, with the program counter it stacked, or a call
with its mode and the stack pointer and the program counter of its return. -/
inductive Context where
  | exception (cpu : Cpu) (pc : UInt32)
  | call (supervisor : Bool) (sp pc : UInt32)

/-- Whether the frame of a context lies on the supervisor stack. -/
def Context.mode : Context → Bool
  | .exception .. => true
  | .call supervisor _ _ => supervisor

/-- The pointer of that stack before the context was entered. -/
def Context.sp : Context → UInt32
  | .exception cpu _ => cpu.stackPointer true
  | .call _ sp _ => sp

/-- Where the context returns to. -/
def Context.pc : Context → UInt32
  | .exception _ pc => pc
  | .call _ _ pc => pc

/-- The size of the frame of a context. -/
def Context.size : Context → Nat
  | .exception .. => 6
  | .call .. => 4

/-- The frame of a context. -/
def Context.frame (c : Context) : Frame where
  base := ramPlace c.sp - c.size
  size := c.size
  value := match c with
    | .exception cpu pc => frameValue pc (m68kiGetSr cpu)
    | .call _ _ pc => pc.toNat

/-- What an entered context keeps. -/
structure Context.Ok (n : Nat) (c : Context) : Prop where
  room : InRamBelow n c.sp c.size
  status : ∀ cpu pc, c = .exception cpu pc → StatusOk cpu

/-- The return from a context, for an exception up to the check for interrupts. -/
def Context.leave (c : Context) (s : Core n) : Option (Core n) :=
  match c with
  | .exception .. => s.leaveException
  | .call .. => m68kOpRts32 s

/-- The instruction that returns from a context. -/
def Context.instruction (ui : Ui) (ops : Opcodes) (c : Context) (s : Core n) : Option (Core n) :=
  match c with
  | .exception .. => m68kOpRte32 ui ops s
  | .call .. => m68kOpRts32 s

/-- What that instruction does after the return: only `m68k_op_rte_32` goes on, with the check for
interrupts. -/
def Context.finish (ui : Ui) (c : Context) (s : Core n) : Option (Core n) :=
  match c with
  | .exception .. => (m68kiCheckInterrupts ui s).map Core.normalMode
  | .call .. => some s

/-- The stack is as the context was entered with it. -/
structure Context.Balanced (c : Context) (s : Core n) : Prop where
  supervisor : s.cpu.supervisor = c.mode
  a7 : s.cpu.dar 15 = c.sp - UInt32.ofNat c.size

/-- The core whose status a return gives back: after an exception the one it interrupted. -/
def Context.interrupted : Context → Cpu → Cpu
  | .exception cpu _, _ => cpu
  | .call .., c => c

/-- `t` goes on where the context was entered, with its stack pointer; after an exception also
with the status of the core it interrupted. -/
structure Context.Resumed (c : Context) (s t : Core n) : Prop where
  pc : t.cpu.pc = c.pc
  status : SameStatus (c.interrupted s.cpu) t.cpu
  sp : t.cpu.stackPointer c.mode = c.sp
  other : t.cpu.stackPointer (!c.mode) = s.cpu.stackPointer (!c.mode)
  registers : ∀ r, r ≠ 15 → t.cpu.dar r = s.cpu.dar r
  machine : t.machine = s.machine

/-- There are `k` bytes of RAM below a stack pointer, and no frame lies in them. -/
structure Room (n k : Nat) (sp : UInt32) (cs : List Context) : Prop where
  ram : InRamBelow n sp k
  apart : ∀ c ∈ cs, c.frame.Apart (ramPlace sp - k) k

/-- What the program may do between: anything that leaves the frames alone. -/
structure Own (cs : List Context) (s t : Core n) : Prop where
  ok : CoreOk s → CoreOk t
  frames : ∀ c ∈ cs, ∀ i, c.frame.Covers i → t.machine.ram i = s.machine.ram i

/-- A step of the core, with the contexts that have been entered and not left yet. -/
inductive Control (ui : Ui) (ops : Opcodes) : Core n × List Context → Core n × List Context → Prop
  | own {s t : Core n} {cs : List Context} (h : Own cs s t) : Control ui ops (s, cs) (t, cs)
  | trap {s t : Core n} {cs : List Context} (vector : UInt32)
      (room : Room n 6 (s.cpu.stackPointer true) cs)
      (h : s.exception ui ops Cpu.pc vector = some t) :
      Control ui ops (s, cs) (t, .exception s.cpu s.cpu.pc :: cs)
  | fault {s t : Core n} {cs : List Context} (vector : UInt32)
      (room : Room n 6 (s.cpu.stackPointer true) cs)
      (h : s.exception ui ops Cpu.ppc vector = some t) :
      Control ui ops (s, cs) (t, .exception s.cpu s.cpu.ppc :: cs)
  | interrupt {s t : Core n} {cs : List Context} (level : UInt32) (hlevel : level.toNat ≤ 7)
      (running : s.cpu.stopped &&& ~~~1 = 0) (room : Room n 6 (s.cpu.stackPointer true) cs)
      (h : m68kiExceptionInterrupt ui s level = some t) :
      Control ui ops (s, cs) (t, .exception s.cpu s.cpu.pc :: cs)
  | call {s t : Core n} {cs : List Context} (target : UInt32) (room : Room n 4 (s.cpu.dar 15) cs)
      (h : s.call ui target = some t) :
      Control ui ops (s, cs) (t, .call s.cpu.supervisor (s.cpu.dar 15) s.cpu.pc :: cs)
  | leave {s t : Core n} {c : Context} {cs : List Context} (balanced : c.Balanced s)
      (h : c.leave s = some t) : Control ui ops (s, c :: cs) (t, cs)

/-- The frames of the contexts are in the RAM. -/
structure Nested (s : Core n) (cs : List Context) : Prop where
  ok : CoreOk s
  contexts : ∀ c ∈ cs, c.Ok n
  intact : ∀ c ∈ cs, c.frame.Holds s.machine.ram

section Contexts

variable {ui : Ui} {ops : Opcodes} {s t : Core n} {c : Context} {cs : List Context}

/-- What entering a context does. -/
theorem Control.entered (size : SoundRamSize n) (ok : CoreOk s)
    (h : Control ui ops (s, cs) (t, c :: cs)) :
    Entered c.mode c.size c.frame.value s t ∧ c.sp = s.cpu.stackPointer c.mode ∧ c.Ok n ∧
      c.frame.value < 256 ^ c.size ∧ Room n c.size c.sp cs := by
  have status := ok.status
  have hlt : ∀ pc, frameValue pc (m68kiGetSr s.cpu) < 256 ^ 6 := fun pc =>
    frameValue_lt (getSr_lt status)
  cases h with
  | trap vector room h =>
    exact ⟨Core.exception_entered size ok room.ram h, rfl,
      ⟨room.ram, fun _ _ h => by cases h; exact status⟩, hlt _, room⟩
  | fault vector room h =>
    exact ⟨Core.exception_entered size ok room.ram h, rfl,
      ⟨room.ram, fun _ _ h => by cases h; exact status⟩, hlt _, room⟩
  | interrupt level hlevel running room h =>
    exact ⟨m68kiExceptionInterrupt_entered size ok running hlevel room.ram h, rfl,
      ⟨room.ram, fun _ _ h => by cases h; exact status⟩, hlt _, room⟩
  | call target room h =>
    exact ⟨Core.call_entered size ok room.ram h, s.cpu.stackPointer_active.symm,
      ⟨room.ram, fun _ _ h => by cases h⟩, s.cpu.pc.toNat_lt, room⟩

/-- Entering a context stores its frame. -/
theorem Nested.entered (nested : Nested s cs) (entered : Entered c.mode c.size c.frame.value s t)
    (hsp : c.sp = s.cpu.stackPointer c.mode) (hc : c.Ok n) (lt : c.frame.value < 256 ^ c.size)
    (room : Room n c.size c.sp cs) : Nested t (c :: cs) := by
  have ram := entered.ram
  rw [← hsp] at ram
  refine ⟨entered.ok, fun d hd => ?_, fun d hd => ?_⟩
  · rcases List.mem_cons.mp hd with rfl | hd
    · exact hc
    · exact nested.contexts d hd
  · rw [ram]
    rcases List.mem_cons.mp hd with rfl | hd
    · exact holds_poke lt
    · exact (nested.intact d hd).poke (room.apart d hd) _

/-- A context that has just been entered can be left. -/
theorem Entered.balanced {v : Nat} (h : Entered c.mode c.size v s t)
    (hsp : c.sp = s.cpu.stackPointer c.mode) : c.Balanced t :=
  ⟨h.supervisor, by rw [h.a7, hsp]⟩

theorem frameValue_parts {mem : Memory} {a : Nat} {pc sr : UInt32}
    (h : value mem a 6 = frameValue pc sr) :
    UInt32.ofNat (value mem a 2) = sr ∧ UInt32.ofNat (value mem (a + 2) 4) = pc := by
  have happend : value mem a 6 = value mem a 2 * 256 ^ 4 + value mem (a + 2) 4 :=
    value_append mem a 2 4
  have hlow := value_lt mem (a + 2) 4
  have hpc : pc.toNat < 256 ^ 4 := pc.toNat_lt
  have hsr : value mem a 2 = sr.toNat ∧ value mem (a + 2) 4 = pc.toNat := by
    unfold frameValue at h
    omega
  rw [hsr.1, hsr.2, UInt32.ofNat_toNat, UInt32.ofNat_toNat]
  exact ⟨rfl, rfl⟩

/-- A balanced return from an exception resumes it. -/
theorem leaveException_resumes (size : SoundRamSize n) {cpu : Cpu} {pc : UInt32} (ok : CoreOk s)
    (hc : (Context.exception cpu pc).Ok n)
    (here : value s.machine.ram (Context.exception cpu pc).frame.base 6
      = frameValue pc (m68kiGetSr cpu))
    (balanced : (Context.exception cpu pc).Balanced s) :
    ∃ t, s.leaveException = some t ∧ CoreOk t ∧ (Context.exception cpu pc).Resumed s t := by
  obtain ⟨supervisor, a7⟩ := balanced
  obtain ⟨room, status⟩ := hc
  have hn := size.upper
  obtain ⟨cpuSp, hsp⟩ : ∃ sp, sp = cpu.stackPointer true := ⟨_, rfl⟩
  change InRamBelow n (cpu.stackPointer true) 6 at room
  change value s.machine.ram (ramPlace (cpu.stackPointer true) - 6) 6 = _ at here
  change s.cpu.dar 15 = cpu.stackPointer true - 6 at a7
  rw [← hsp] at room here a7
  -- the status register and the program counter in the frame
  obtain ⟨span, place⟩ := room.span (b := 6) hn rfl
  have hword : InRamSpan n (s.cpu.dar 15) Width.word.lanes := by
    rw [a7]
    exact ⟨span.1, (Nat.add_le_add_left (by decide) _).trans span.2⟩
  obtain ⟨spanPc, placePc⟩ := (room.mono (j := 4) (by decide)).span (b := 4) hn rfl
  have hplace : ramPlace cpuSp - 4 = ramPlace cpuSp - 6 + 2 := by
    have hle := room.le
    omega
  obtain ⟨hsr, hpc⟩ := frameValue_parts here
  have hpull₁ : s.pull .word 2 = some (m68kiGetSr cpu, s.setReg 15 (cpuSp - 4)) := by
    rw [Core.pull_ram size ok.addressMask hword, a7, place, ← hsr]
    congr 3
    grind
  have hpull₂ : (s.setReg 15 (cpuSp - 4)).pull .long 4
      = some (pc, (s.setReg 15 (cpuSp - 4)).setReg 15 cpuSp) := by
    have ha7 : (s.setReg 15 (cpuSp - 4)).cpu.dar 15 = cpuSp - 4 := by
      rw [Core.setReg_dar, if_pos rfl]
    rw [Core.pull_ram size (by exact ok.addressMask) (by rw [ha7]; exact spanPc), ha7, placePc,
      hplace, ← hpc]
    congr 3
    grind
  -- the core that sets the status register
  obtain ⟨u, hu⟩ : ∃ u : Core n, u = m68kiJump ((s.setReg 15 (cpuSp - 4)).setReg 15 cpuSp) pc :=
    ⟨_, rfl⟩
  have okU : StatusOk u.cpu := by
    rw [hu]
    exact ok.status.congr rfl rfl rfl rfl rfl rfl
  have hset := m68kiSetSrNoint_eq okU (m68kiGetSr cpu)
  refine ⟨{ u with cpu := u.cpu.withSr (m68kiGetSr cpu) }, ?_, ?_, ?_⟩
  · rw [Core.leaveException, m68kiPull16, hpull₁]
    simp only [Option.bind_eq_bind, Option.bind_some]
    rw [m68kiPull32, hpull₂]
    simp only [Option.bind_some]
    rw [← hu, hset]
    rfl
  · refine ⟨statusOk_withSr okU _, ?_, ?_⟩
    · rw [hu]
      exact ok.cpuType
    · rw [hu]
      exact ok.addressMask
  · have hregister : ∀ r, r ≠ 15 → u.cpu.dar r = s.cpu.dar r := by
      intro r hr
      rw [hu]
      show ((s.setReg 15 (cpuSp - 4)).setReg 15 cpuSp).cpu.dar r = s.cpu.dar r
      rw [Core.setReg_dar, if_neg hr, Core.setReg_dar, if_neg hr]
    have hmode : u.cpu.supervisor = true := by
      rw [hu]
      exact supervisor
    have hother := Cpu.stackPointer_other (c := s.cpu) (d := u.cpu) (by rw [hu]; rfl)
      (by rw [hu]; rfl)
    refine ⟨?_, sameStatus_withSr (status _ _ rfl) okU, ?_, ?_, fun r hr => ?_, ?_⟩
    · rw [hu]
      rfl
    · show (u.cpu.withSr (m68kiGetSr cpu)).stackPointer true = cpu.stackPointer true
      have hactive : u.cpu.stackPointer true = u.cpu.dar 15 := by
        rw [← hmode, Cpu.stackPointer_active]
      rw [withSr_stackPointer okU, hactive, hu]
      show ((s.setReg 15 (cpuSp - 4)).setReg 15 cpuSp).cpu.dar 15 = cpu.stackPointer true
      rw [Core.setReg_dar, if_pos rfl, hsp]
    · show (u.cpu.withSr (m68kiGetSr cpu)).stackPointer (!true) = s.cpu.stackPointer (!true)
      rw [hmode, supervisor] at hother
      rw [withSr_stackPointer okU]
      exact hother
    · rw [withSr_register _ hr, hregister r hr]
    · rw [hu]
      rfl

/-- A balanced return from a call resumes it. -/
theorem rts_resumes (size : SoundRamSize n) {mode : Bool} {sp pc : UInt32} (ok : CoreOk s)
    (hc : (Context.call mode sp pc).Ok n)
    (here : value s.machine.ram (Context.call mode sp pc).frame.base 4 = pc.toNat)
    (balanced : (Context.call mode sp pc).Balanced s) :
    ∃ t, m68kOpRts32 s = some t ∧ CoreOk t ∧ (Context.call mode sp pc).Resumed s t := by
  obtain ⟨supervisor, a7⟩ := balanced
  obtain ⟨room, -⟩ := hc
  change InRamBelow n sp 4 at room
  change value s.machine.ram (ramPlace sp - 4) 4 = _ at here
  change s.cpu.dar 15 = sp - 4 at a7
  change s.cpu.supervisor = mode at supervisor
  obtain ⟨span, place⟩ := room.span (b := 4) size.upper rfl
  have hpull : s.pull .long 4 = some (pc, s.setReg 15 sp) := by
    rw [Core.pull_ram size ok.addressMask (w := .long) (by rw [a7]; exact span), a7, place]
    have hvalue : UInt32.ofNat (value s.machine.ram (ramPlace sp - 4) 4) = pc := by
      rw [here, UInt32.ofNat_toNat]
    rw [← hvalue]
    congr 3
    grind
  obtain ⟨t, ht⟩ : ∃ t, t = m68kiJump (s.setReg 15 sp) pc := ⟨_, rfl⟩
  have hmode : t.cpu.supervisor = mode := by
    rw [ht]
    exact supervisor
  have hother := Cpu.stackPointer_other (c := s.cpu) (d := t.cpu) (by rw [ht]; rfl)
    (by rw [ht]; rfl)
  refine ⟨t, ?_, ?_, ?_, ?_, ?_, ?_, fun r hr => ?_, ?_⟩
  · rw [m68kOpRts32, m68kiPull32, hpull, ht]
    rfl
  · rw [ht]
    exact ok.congr rfl
  · rw [ht]
    rfl
  · rw [ht]
    exact ⟨rfl, rfl, rfl, rfl, rfl, fun _ => rfl⟩
  · show t.cpu.stackPointer mode = sp
    rw [← hmode, Cpu.stackPointer_active, ht]
    exact (s.setReg_dar 15 sp 15).trans (if_pos rfl)
  · rw [hmode, supervisor] at hother
    exact hother
  · rw [ht]
    exact (s.setReg_dar 15 sp r).trans (if_neg hr)
  · rw [ht]
    rfl

/-- A balanced return resumes its context. -/
theorem Nested.leave_resumes (size : SoundRamSize n) (nested : Nested s (c :: cs))
    (balanced : c.Balanced s) : ∃ t, c.leave s = some t ∧ CoreOk t ∧ c.Resumed s t := by
  have hc := nested.contexts c List.mem_cons_self
  have here := nested.intact c List.mem_cons_self
  cases c with
  | exception cpu pc => exact leaveException_resumes size nested.ok hc here balanced
  | call mode sp pc => exact rts_resumes size nested.ok hc here balanced

theorem Context.Resumed.supervisor (h : c.Resumed s t) :
    t.cpu.supervisor = (c.interrupted s.cpu).supervisor := by
  rw [Cpu.supervisor, Cpu.supervisor, h.status.sFlag]

/-- Two cores are in the same mode, with the same stack pointers. -/
structure SamePointers (s t : Core n) : Prop where
  supervisor : t.cpu.supervisor = s.cpu.supervisor
  pointer : ∀ b, t.cpu.stackPointer b = s.cpu.stackPointer b

theorem SamePointers.a7 (h : SamePointers s t) : t.cpu.dar 15 = s.cpu.dar 15 := by
  rw [← Cpu.stackPointer_active, ← Cpu.stackPointer_active, h.supervisor, h.pointer]

theorem SamePointers.balanced (h : SamePointers s t) (balanced : c.Balanced s) : c.Balanced t :=
  ⟨h.supervisor.trans balanced.supervisor, h.a7.trans balanced.a7⟩

/-- An entry and its return have the core in the mode and with the stack pointers of before, when
the stack pointer of the other mode has been left alone. -/
theorem Control.returned (size : SoundRamSize n) (ok : CoreOk s)
    (enter : Control ui ops (s, cs) (t, c :: cs)) {u v : Core n} (balanced : c.Balanced u)
    (other : u.cpu.stackPointer (!c.mode) = t.cpu.stackPointer (!c.mode))
    (resumed : c.Resumed u v) : SamePointers s v := by
  obtain ⟨entered, hsp, -⟩ := enter.entered size ok
  refine ⟨?_, fun b => ?_⟩
  · have hmode := resumed.supervisor
    cases enter with
    | trap | fault | interrupt => exact hmode
    | call => exact hmode.trans balanced.supervisor
  · rcases Bool.eq_or_eq_not b c.mode with rfl | rfl
    · exact resumed.sp.trans hsp
    · exact resumed.other.trans (other.trans entered.other)

/-- Every step keeps the frames of its contexts. -/
theorem Nested.step (size : SoundRamSize n) (nested : Nested s cs) {cs' : List Context}
    (h : Control ui ops (s, cs) (t, cs')) : Nested t cs' := by
  have entering : ∀ c : Context, cs' = c :: cs → Nested t cs' := by
    rintro c rfl
    obtain ⟨entered, hsp, hc, lt, room⟩ := h.entered size nested.ok
    exact nested.entered entered hsp hc lt room
  cases h with
  | own h =>
    obtain ⟨ok, frames⟩ := h
    exact ⟨ok nested.ok, nested.contexts, fun c hc => (nested.intact c hc).congr (frames c hc)⟩
  | trap | fault | interrupt | call => exact entering _ rfl
  | leave balanced h =>
    obtain ⟨t', ht', ok, resumed⟩ := nested.leave_resumes size balanced
    obtain rfl := Option.some.inj (ht'.symm.trans h)
    refine ⟨ok, fun d hd => nested.contexts d (List.mem_cons_of_mem _ hd), fun d hd => ?_⟩
    rw [resumed.machine]
    exact nested.intact d (List.mem_cons_of_mem _ hd)

end Contexts

/-! ### The instructions -/

section Instructions

variable {ui : Ui} {ops : Opcodes} {s t u : Core n} {c : Context} {cs : List Context}

open Relation

/-- The traps return behind their instruction. -/
theorem traps_control {vector : UInt32} (room : Room n 6 (s.cpu.stackPointer true) cs)
    (h : m68kiExceptionTrap ui ops vector s = some t ∨
      m68kiExceptionTrapN ui ops vector s = some t ∨ m68kOpTrap ui ops s = some t) :
    Control ui ops (s, cs) (t, .exception s.cpu s.cpu.pc :: cs) := by
  rcases h with h | h | h
  · exact .trap _ room h
  · exact .trap _ room h
  · exact .trap _ room h

/-- Violations of the privilege, unimplemented and illegal opcodes return to their instruction. -/
theorem faults_control (room : Room n 6 (s.cpu.stackPointer true) cs)
    (h : m68kiExceptionPrivilegeViolation ui ops s = some t ∨ m68kiException1010 ui ops s = some t ∨
      m68kiException1111 ui ops s = some t ∨ m68kiExceptionIllegal ui ops s = some t) :
    Control ui ops (s, cs) (t, .exception s.cpu s.cpu.ppc :: cs) := by
  rcases h with h | h | h | h
  · exact .fault _ room h
  · exact .fault _ room h
  · exact .fault _ room h
  · exact .fault _ room h

/-- `trapv` is a trap when V is set, and nothing otherwise. -/
theorem m68kOpTrapv_control (room : Room n 6 (s.cpu.stackPointer true) cs)
    (h : m68kOpTrapv ui ops s = some t) :
    if cond .vc s.cpu.flags then t = s
    else Control ui ops (s, cs) (t, .exception s.cpu s.cpu.pc :: cs) := by
  rw [m68kOpTrapv] at h
  split
  next clear =>
    rw [if_pos clear] at h
    exact (Option.some.inj h).symm
  next set =>
    rw [if_neg set] at h
    exact traps_control room (.inl h)

/-- A read leaves the frames alone. -/
theorem Own.of_ram (ok : CoreOk s → CoreOk t) (ram : t.machine.ram = s.machine.ram) :
    Own cs s t :=
  ⟨ok, fun _ _ i _ => congrFun ram i⟩

/-- `jsr` is a call, after its effective address has been fetched. -/
theorem m68kOpJsr32_control {getEa : Core n → Option (UInt32 × Core n)} {ea : UInt32}
    (fetched : getEa s = some (ea, u)) (own : Own cs s u) (room : Room n 4 (u.cpu.dar 15) cs)
    (h : m68kOpJsr32 ui getEa s = some t) :
    ReflTransGen (Control ui ops) (s, cs)
      (t, .call u.cpu.supervisor (u.cpu.dar 15) u.cpu.pc :: cs) := by
  rw [m68kOpJsr32, fetched, Option.bind_eq_bind, Option.bind_some] at h
  exact .tail (.single (.own own)) (.call ea room h)

/-- A short branch to a subroutine computes its target after the push. -/
theorem m68kOpBsr8_eq (size : SoundRamSize n) (mask : s.cpu.addressMask = 0x00ffffff) :
    m68kOpBsr8 ui s = s.call ui (s.cpu.pc + s.cpu.ir.toUInt8.toInt8.toInt32.toUInt32) := by
  rw [m68kOpBsr8, Core.call, m68kiPush32, Core.push_eq size mask]
  rfl

/-- So does a long one, which has read its displacement. -/
theorem m68kOpBsr16_eq (size : SoundRamSize n) {offset : UInt32}
    (mask : u.cpu.addressMask = 0x00ffffff) (h : m68kiReadImm16 s = some (offset, u)) :
    m68kOpBsr16 ui s = u.call ui (u.cpu.pc - 2 + offset.toUInt16.toInt16.toInt32.toUInt32) := by
  rw [m68kOpBsr16, h, Option.bind_eq_bind, Option.bind_some]
  dsimp only
  rw [Core.call, m68kiPush32, Core.push_eq size mask]
  rfl

theorem m68kOpBsr8_control (size : SoundRamSize n) (ok : CoreOk s)
    (room : Room n 4 (s.cpu.dar 15) cs) (h : m68kOpBsr8 ui s = some t) :
    Control ui ops (s, cs) (t, .call s.cpu.supervisor (s.cpu.dar 15) s.cpu.pc :: cs) := by
  rw [m68kOpBsr8_eq size ok.addressMask] at h
  exact .call _ room h

theorem m68kOpBsr16_control (size : SoundRamSize n) (ok : CoreOk s)
    (room : Room n 4 (s.cpu.dar 15) cs) (h : m68kOpBsr16 ui s = some t) :
    ReflTransGen (Control ui ops) (s, cs)
      (t, .call s.cpu.supervisor (s.cpu.dar 15) (s.cpu.pc + 2) :: cs) := by
  obtain ⟨⟨offset, u⟩, himm, -⟩ := Option.bind_eq_some_iff.mp h
  obtain ⟨cpu, ram⟩ := Core.read_same (s := { s with
    cpu := { s.cpu with pc := s.cpu.pc + 2 } }) size.upper himm
  obtain ⟨cpu', machine, log⟩ := u
  obtain rfl : cpu' = _ := cpu
  have ok' : CoreOk (⟨{ s.cpu with pc := s.cpu.pc + 2 }, machine, log⟩ : Core n) := ok.congr rfl
  rw [m68kOpBsr16_eq size ok'.addressMask himm] at h
  exact .tail (.single (.own (.of_ram (fun _ => ok') ram))) (.call _ room h)

/-- A check for interrupts enters an exception or does nothing. -/
theorem m68kiCheckInterrupts_control (level : (s.cpu.intLevel >>> 8).toNat ≤ 7)
    (room : Room n 6 (s.cpu.stackPointer true) cs) (h : m68kiCheckInterrupts ui s = some t) :
    ∃ cs', ReflTransGen (Control ui ops) (s, cs) (t, cs') ∧
      (cs' = cs ∨ ∃ cpu, cs' = .exception cpu s.cpu.pc :: cs) := by
  have service : ∀ (r : Core n) (k : UInt32), Control ui ops (s, cs) (r, cs) → k.toNat ≤ 7 →
      r.cpu.pc = s.cpu.pc → r.cpu.stackPointer true = s.cpu.stackPointer true →
      m68kiExceptionInterrupt ui r k = some t →
      ∃ cs', ReflTransGen (Control ui ops) (s, cs) (t, cs') ∧
        (cs' = cs ∨ ∃ cpu, cs' = .exception cpu s.cpu.pc :: cs) := by
    intro r k start hk hpc hsp h
    rcases m68kiExceptionInterrupt_cases h with ⟨-, rfl⟩ | ⟨running, -⟩
    · -- a halted core stays where it is
      have halted : Own cs r { r with cpu := { r.cpu with stopped := r.cpu.stopped &&& ~~~1 } } :=
        .of_ram (fun ok => ok.congr rfl) rfl
      exact ⟨cs, .tail (.single start) (.own halted), .inl rfl⟩
    · rw [← hpc]
      exact ⟨_, .tail (.single start) (.interrupt k hk running (by rw [hsp]; exact room) h),
        .inr ⟨_, rfl⟩⟩
  rw [m68kiCheckInterrupts] at h
  split at h
  · have cleared : Own cs s { s with cpu := { s.cpu with nmiPending := 0 } } :=
      .of_ram (fun ok => ok.congr rfl) rfl
    exact service _ 7 (.own cleared) (by decide) rfl rfl h
  · split at h
    · exact service s _ (.own (.of_ram id rfl)) level rfl rfl h
    · cases h
      exact ⟨cs, .refl, .inl rfl⟩

/-- In user mode `rte` is a violation of the privilege. -/
theorem m68kOpRte32_user (user : s.cpu.sFlag = 0) :
    m68kOpRte32 ui ops s = m68kiExceptionPrivilegeViolation ui ops s :=
  if_neg (not_not_intro user)

/-- In supervisor mode it is the return and then the check for interrupts. -/
theorem m68kOpRte32_supervisor (supervisor : s.cpu.supervisor = true) :
    m68kOpRte32 ui ops s
      = (s.leaveException.bind (m68kiCheckInterrupts ui)).map Core.normalMode := by
  rw [m68kOpRte32, if_pos (of_decide_eq_true supervisor)]
  cases s.leaveException with
  | none => rfl
  | some u =>
    cases h : m68kiCheckInterrupts ui u with
    | none => simp [h]
    | some v => simp [h]

/-- A balanced `rte` leaves its exception, and an interrupt may follow at once. -/
theorem m68kOpRte32_control (size : SoundRamSize n) {cpu : Cpu} {pc : UInt32}
    (nested : Nested s (.exception cpu pc :: cs))
    (balanced : (Context.exception cpu pc).Balanced s)
    (room : Room n 6 (cpu.stackPointer true) cs)
    (level : ∀ u, s.leaveException = some u → (u.cpu.intLevel >>> 8).toNat ≤ 7)
    (h : m68kOpRte32 ui ops s = some t) :
    ∃ cs', ReflTransGen (Control ui ops) (s, .exception cpu pc :: cs) (t, cs') ∧
      (cs' = cs ∨ ∃ cpu', cs' = .exception cpu' pc :: cs) := by
  rw [m68kOpRte32_supervisor balanced.supervisor] at h
  obtain ⟨v, hv, rfl⟩ := Option.map_eq_some_iff.mp h
  obtain ⟨u, hu, hcheck⟩ := Option.bind_eq_some_iff.mp hv
  obtain ⟨u', hu', -, resumed⟩ := nested.leave_resumes size balanced
  obtain rfl := Option.some.inj (hu.symm.trans hu')
  have hroom : Room n 6 (u.cpu.stackPointer true) cs := by
    have hsp : u.cpu.stackPointer true = cpu.stackPointer true := resumed.sp
    rw [hsp]
    exact room
  obtain ⟨cs', run, hcs⟩ : ∃ cs', ReflTransGen (Control ui ops) (u, cs) (v, cs') ∧
      (cs' = cs ∨ ∃ cpu', cs' = .exception cpu' u.cpu.pc :: cs) :=
    m68kiCheckInterrupts_control (level u hu) hroom hcheck
  have hpc : u.cpu.pc = pc := resumed.pc
  rw [hpc] at hcs
  have normal : Own cs' v v.normalMode := .of_ram (fun ok => ok.congr rfl) rfl
  exact ⟨cs', .tail (.head (.leave balanced hu) run) (.own normal), hcs⟩

/-- The instruction that returns from a context is the return and what follows it. -/
theorem Context.instruction_eq (balanced : c.Balanced s) :
    c.instruction ui ops s = (c.leave s).bind (c.finish ui) := by
  cases c with
  | exception cpu pc =>
    refine (m68kOpRte32_supervisor balanced.supervisor).trans ?_
    exact Option.map_bind
  | call mode sp pc =>
    show m68kOpRts32 s = (m68kOpRts32 s).bind some
    cases m68kOpRts32 s with
    | none => rfl
    | some u => rfl

end Instructions

/-- A core in user mode, with a stack for each mode in the RAM. -/
def Core.inUser : Core ramSize :=
  .idle { m68kSetCpuType Cpu.initial with
    dar := Cpu.initial.dar.set 15 0x400200
    sp := Cpu.initial.sp.set 4 0x400100
    pc := 0x1000 }

theorem inUser_ok : CoreOk Core.inUser :=
  ⟨⟨rfl, .inl rfl, rfl, .inl rfl, rfl, rfl⟩, rfl, rfl⟩

end Kyacopycat
