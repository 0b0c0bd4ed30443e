import Kyacopycat.Bus
import Kyacopycat.MainLoop

/-!
The CPU core: `Musashi/m68kcpu.c` and `m68kcpu.h` as configured in `m68kconf.h`.

The core is modelled where it decides about interrupts: reset, the interrupt pins,
exception processing and the loop of `m68k_execute`. The instruction handlers are generated
from `m68k_in.c` and are a parameter: a `Handler` is a tree of the things a handler does,
and what it writes to the CPU (`CpuWrite`) leaves `nmi_pending` alone and puts no level 7 on
the interrupt pins.

`CoreEvent`s record what the core has done, oldest first: the reset, every exception it has
serviced for an interrupt, and every instruction.
-/

namespace Kyacopycat

variable {n : Nat}

/-! ### State -/

/-- The core: `m68ki_cpu` and the cycle counters. -/
structure Cpu where
  cpuType : UInt32
  /-- data and address registers; the last one is the active stack pointer -/
  dar : CArray UInt32 16
  darSave : CArray UInt32 16
  ppc : UInt32
  pc : UInt32
  /-- user, interrupt and master stack pointers -/
  sp : CArray UInt32 7
  vbr : UInt32
  ir : UInt16
  t1Flag : UInt32
  t0Flag : UInt32
  sFlag : UInt32
  mFlag : UInt32
  xFlag : UInt32
  nFlag : UInt32
  notZFlag : UInt32
  vFlag : UInt32
  cFlag : UInt32
  intMask : UInt32
  /-- state of the interrupt pins, in the position of the mask in the status register -/
  intLevel : UInt32
  stopped : UInt32
  addressMask : UInt32
  srMask : UInt32
  instrMode : UInt32
  runMode : UInt32
  pmmuEnabled : UInt32
  resetCycles : UInt32
  virqState : UInt32
  nmiPending : UInt32
  remainingCycles : Int
  initialCycles : Int

/-- The core before the program starts: zeros. -/
def Cpu.initial : Cpu where
  cpuType := 0
  dar := CArray.fill 0
  darSave := CArray.fill 0
  ppc := 0
  pc := 0
  sp := CArray.fill 0
  vbr := 0
  ir := 0
  t1Flag := 0
  t0Flag := 0
  sFlag := 0
  mFlag := 0
  xFlag := 0
  nFlag := 0
  notZFlag := 0
  vFlag := 0
  cFlag := 0
  intMask := 0
  intLevel := 0
  stopped := 0
  addressMask := 0
  srMask := 0
  instrMode := 0
  runMode := 0
  pmmuEnabled := 0
  resetCycles := 0
  virqState := 0
  nmiPending := 0
  remainingCycles := 0
  initialCycles := 0

/-- What the core has done. -/
inductive CoreEvent where
  | reset (sp pc : UInt32)
  | interrupt (level vector : UInt32)
  | instruction (opcode : UInt16)
  deriving DecidableEq, Repr

/-- The core with the machine on its bus. -/
structure Core (n : Nat) where
  cpu : Cpu
  machine : Machine n
  log : List CoreEvent

/-! ### Cycles -/

/-- `m68ki_exception_cycle_table`, the row of the 68000. -/
def exceptionCycles (vector : UInt32) : Option UInt8 :=
  if vector = 0 then some 40
  else if vector = 1 then some 4
  else if vector ≤ 3 then some 50
  else if vector = 4 then some 34
  else if vector = 5 then some 38
  else if vector = 6 then some 40
  else if vector ≤ 11 then some 34
  else if vector ≤ 14 then some 4
  else if vector = 15 then some 44
  else if vector ≤ 23 then some 4
  else if vector ≤ 31 then some 44
  else if vector ≤ 47 then some 34
  else if vector ≤ 255 then some 4
  else none

/-- `CPU_CYCLES`. -/
abbrev cpuCycles : Int := 32768

/-! ### Memory accesses -/

/-- `m68ki_read_16` and `m68ki_read_32`, by width. -/
def Core.read (w : Width) (s : Core n) (address : UInt32) : Option (UInt32 × Core n) := do
  let (value, machine) ← m68kReadMemory w s.machine (address &&& s.cpu.addressMask)
  return (value, { s with machine })

/-- `m68ki_write_16` and `m68ki_write_32`, by width. -/
def Core.write (ui : Ui) (w : Width) (s : Core n) (address value : UInt32) : Option (Core n) := do
  let machine ← m68kWriteMemory ui w s.machine (address &&& s.cpu.addressMask) value
  return { s with machine }

/-- `m68ki_read_imm_16`. -/
def m68kiReadImm16 (s : Core n) : Option (UInt32 × Core n) :=
  let s := { s with cpu := { s.cpu with pc := s.cpu.pc + 2 } }
  s.read .word (s.cpu.pc - 2)

/-- `m68ki_read_imm_32`. -/
def m68kiReadImm32 (s : Core n) : Option (UInt32 × Core n) :=
  let s := { s with cpu := { s.cpu with pc := s.cpu.pc + 4 } }
  s.read .long (s.cpu.pc - 4)

/-- A push of a value of `bytes` bytes. -/
def Core.push (ui : Ui) (w : Width) (bytes : UInt32) (s : Core n) (value : UInt32) :
    Option (Core n) :=
  let sp := s.cpu.dar 15 - bytes
  Core.write ui w { s with cpu := { s.cpu with dar := s.cpu.dar.set 15 sp } } sp value

/-- `REG_SP`. -/
abbrev Cpu.regSp (c : Cpu) : UInt32 := c.dar 15

/-- `m68ki_push_16`. -/
def m68kiPush16 (ui : Ui) (s : Core n) (value : UInt32) : Option (Core n) := s.push ui .word 2 value

/-- `m68ki_push_32`. -/
def m68kiPush32 (ui : Ui) (s : Core n) (value : UInt32) : Option (Core n) := s.push ui .long 4 value

/-! ### Status register -/

/-- The stack pointer that the S and M flags select. -/
def Cpu.spIndex (c : Cpu) : Nat := (c.sFlag ||| ((c.sFlag >>> 1) &&& c.mFlag)).toNat

/-- `m68ki_set_sm_flag`. -/
def m68kiSetSmFlag (c : Cpu) (value : UInt32) : Option Cpu := do
  -- back up the old stack pointer
  let sp ← c.sp.store c.spIndex (c.dar 15)
  let c := { c with sp, sFlag := value &&& 4, mFlag := value &&& 2 }
  let active ← c.sp.load c.spIndex
  return { c with dar := c.dar.set 15 active }

/-- `m68ki_set_s_flag`. -/
def m68kiSetSFlag (c : Cpu) (value : UInt32) : Option Cpu := do
  let sp ← c.sp.store c.spIndex (c.dar 15)
  let c := { c with sp, sFlag := value }
  let active ← c.sp.load c.spIndex
  return { c with dar := c.dar.set 15 active }

/-- `m68ki_get_sr`. -/
def m68kiGetSr (c : Cpu) : UInt32 :=
  c.t1Flag ||| c.t0Flag ||| (c.sFlag <<< 11) ||| (c.mFlag <<< 11) ||| c.intMask
    ||| (((c.xFlag &&& 0x100) >>> 4) ||| ((c.nFlag &&& 0x80) >>> 4)
    ||| ((if c.notZFlag = 0 then (1 : UInt32) else 0) <<< 2) ||| ((c.vFlag &&& 0x80) >>> 6)
    ||| ((c.cFlag &&& 0x100) >>> 8))

/-! ### Interrupts -/

/-- `m68k_set_irq`. -/
def m68kSetIrq (c : Cpu) (intLevel : UInt32) : Cpu :=
  let oldLevel := c.intLevel
  let c := { c with intLevel := intLevel <<< 8 }
  -- a transition from below 7 to 7 always interrupts
  if oldLevel ≠ 0x0700 ∧ c.intLevel = 0x0700 then { c with nmiPending := 1 } else c

/-- `m68ki_init_exception`. -/
def m68kiInitException (c : Cpu) : Option (UInt32 × Cpu) := do
  let sr := m68kiGetSr c
  let c ← m68kiSetSFlag { c with t1Flag := 0, t0Flag := 0 } 4
  return (sr, c)

/-- `m68ki_stack_frame_0000`. -/
def m68kiStackFrame0000 (ui : Ui) (s : Core n) (pc sr vector : UInt32) : Option (Core n) := do
  let s ← (if s.cpu.cpuType = 1 then some s else m68kiPush16 ui s (vector <<< 2))
  let s ← m68kiPush32 ui s pc
  m68kiPush16 ui s sr

/-- `m68ki_exception_interrupt`, with autovectors and no acknowledge callback. -/
def m68kiExceptionInterrupt (ui : Ui) (s : Core n) (intLevel : UInt32) : Option (Core n) := do
  let s := { s with cpu := { s.cpu with stopped := s.cpu.stopped &&& ~~~1 } }
  -- a halted core does not do anything
  if s.cpu.stopped ≠ 0 then return s
  let vector := 24 + intLevel
  let (sr, cpu) ← m68kiInitException s.cpu
  let s := { s with
    cpu := { cpu with intMask := intLevel <<< 8 }
    log := s.log ++ [CoreEvent.interrupt intLevel vector] }
  let (newPc, s) ← s.read .long ((vector <<< 2) + s.cpu.vbr)
  -- an uninitialized vector
  let (newPc, s) ←
    (if newPc = 0 then s.read .long (((15 : UInt32) <<< 2) + s.cpu.vbr) else some (newPc, s))
  let s ← m68kiStackFrame0000 ui s s.cpu.pc sr vector
  let cycles ← exceptionCycles vector
  return { s with cpu := { s.cpu with
    pc := newPc
    remainingCycles := s.cpu.remainingCycles - cycles.toNat
    intLevel := 0 } }

/-- `m68ki_check_interrupts`. -/
def m68kiCheckInterrupts (ui : Ui) (s : Core n) : Option (Core n) :=
  if s.cpu.nmiPending ≠ 0 then
    m68kiExceptionInterrupt ui { s with cpu := { s.cpu with nmiPending := 0 } } 7
  else if s.cpu.intLevel > s.cpu.intMask then
    m68kiExceptionInterrupt ui s (s.cpu.intLevel >>> 8)
  else some s

/-! ### Reset -/

/-- `m68k_init`: the jump table and the callbacks, none of which the configuration uses. -/
def m68kInit (c : Cpu) : Cpu := c

/-- `m68k_set_cpu_type(M68K_CPU_TYPE_68000)`. -/
def m68kSetCpuType (c : Cpu) : Cpu :=
  { c with cpuType := 1, addressMask := 0x00ffffff, srMask := 0xa71f }

/-- `m68k_pulse_reset`. -/
def m68kPulseReset (s : Core n) : Option (Core n) := do
  let cpu ← m68kiSetSmFlag { s.cpu with
    pmmuEnabled := 0
    stopped := 0
    remainingCycles := 0
    runMode := 2
    instrMode := 0
    t1Flag := 0
    t0Flag := 0
    intMask := 0x0700
    intLevel := 0
    virqState := 0
    vbr := 0 } 4
  let s := { s with cpu := { cpu with pc := 0 } }
  let (sp, s) ← m68kiReadImm32 s
  let s := { s with cpu := { s.cpu with dar := s.cpu.dar.set 15 sp } }
  let (pc, s) ← m68kiReadImm32 s
  let cycles ← exceptionCycles 0
  return {
    cpu := { s.cpu with pc, runMode := 0, resetCycles := cycles.toUInt32 }
    machine := s.machine
    log := s.log ++ [CoreEvent.reset sp pc] }

/-! ### Instruction handlers -/

/-- What an instruction handler may do to the CPU at once. -/
structure CpuWrite where
  apply : Cpu → Cpu
  nmiPending : ∀ c, (apply c).nmiPending = c.nmiPending
  intLevel : ∀ c, (apply c).intLevel >>> 8 = 7 → c.intLevel >>> 8 = 7

/-- A handler, as the tree of what it does next. -/
inductive Handler where
  | done
  | inspect (next : Cpu → Handler)
  | modify (w : CpuWrite) (next : Handler)
  | read (w : Width) (address : UInt32) (next : UInt32 → Handler)
  | write (w : Width) (address value : UInt32) (next : Handler)
  | checkInterrupts (next : Handler)

/-- Run a handler. -/
def Handler.run (ui : Ui) : Handler → Core n → Option (Core n)
  | .done, s => some s
  | .inspect next, s => (next s.cpu).run ui s
  | .modify w next, s => next.run ui { s with cpu := w.apply s.cpu }
  | .read w address next, s => do
    let (value, s) ← s.read w address
    (next value).run ui s
  | .write w address value next, s => do
    let s ← s.write ui w address value
    next.run ui s
  | .checkInterrupts next, s => do
    let s ← m68kiCheckInterrupts ui s
    next.run ui s

/-- The generated tables: the handler and the cycles of each opcode. -/
structure Opcodes where
  handler : UInt16 → Handler
  cycles : UInt16 → UInt8

/-! ### Execution -/

/-- Where the emulator stands: about to call `m68k_execute`, in its loop, after its
return, or out of the main loop. -/
inductive Phase where
  | call
  | loop
  | returned
  | left
  deriving DecidableEq, Repr

/-- The emulator, between two steps of the core or the main loop. -/
structure Running (n : Nat) where
  core : Core n
  phase : Phase

/-- `m68k_execute` up to its loop. -/
def beginExecute (ui : Ui) (s : Core n) (numCycles : Int) : Option (Running n) := do
  let rc := s.cpu.resetCycles
  let s := { s with cpu := { s.cpu with resetCycles := 0 } }
  let numCycles := numCycles - rc.toNat
  if rc ≠ 0 ∧ numCycles ≤ 0 then return ⟨s, .returned⟩
  let s := { s with cpu := { s.cpu with remainingCycles := numCycles, initialCycles := numCycles } }
  let s ← m68kiCheckInterrupts ui s
  if s.cpu.stopped = 0 then return ⟨s, .loop⟩
  return ⟨{ s with cpu := { s.cpu with remainingCycles := 0 } }, .returned⟩

/-- One turn of the loop of `m68k_execute`. -/
def executeInstruction (ui : Ui) (ops : Opcodes) (s : Core n) : Option (Running n) := do
  let s := { s with cpu := { s.cpu with ppc := s.cpu.pc, darSave := s.cpu.dar } }
  let (word, s) ← m68kiReadImm16 s
  let ir := word.toUInt16
  let s := { s with cpu := { s.cpu with ir }, log := s.log ++ [CoreEvent.instruction ir] }
  let s ← (ops.handler ir).run ui s
  let remaining := s.cpu.remainingCycles - (ops.cycles s.cpu.ir).toNat
  let s := { s with cpu := { s.cpu with remainingCycles := remaining } }
  if remaining > 0 then return ⟨s, .loop⟩
  return ⟨{ s with cpu := { s.cpu with ppc := s.cpu.pc } }, .returned⟩

/-- The steps of the emulator in its main loop. -/
inductive RunStep where
  | beginExecute
  | instruction
  | endSlice (event : EventEffect) (readable : Bool)

/-- The emulator after a step; a step out of phase is none. -/
def Running.step (ui : Ui) (ops : Opcodes) (r : Running n) (x : RunStep) : Option (Running n) :=
  match x, r.phase with
  | .beginExecute, .call => beginExecute ui r.core cpuCycles
  | .instruction, .loop => executeInstruction ui ops r.core
  | .endSlice event readable, .returned =>
    let s := r.core
    let run := !watchdogTriggered (tick s.machine) && !event.quit
    some {
      core := { s with
        cpu := m68kSetIrq s.cpu 1
        machine := (sliceEnd s.machine event readable).2 }
      phase := if run then .call else .left }
  | _, _ => none

/-! ### From `main` -/

/-- What `main` does with the RAM file: the RAM, and whether the image was complete. -/
def loadRam (ramFile : Option (List UInt8)) : CArray UInt8 n × Bool :=
  match ramFile with
  | none => (CArray.fill 0, false)
  | some bytes => ((CArray.fill 0).ofBytes bytes, decide (n ≤ bytes.length))

/-- `main` from the loaded RAM image to the loop: the interrupt request of a warm boot, the
start of the core, and the first rendering. -/
def boot (ui : Ui) (l : Loaded n) (complete : Bool) : Option (Running n) := do
  let cpu := if complete then m68kSetIrq Cpu.initial 7 else Cpu.initial
  let cpu := m68kSetCpuType (m68kInit cpu)
  let s ← m68kPulseReset { cpu, machine := l.machine, log := [] }
  let machine ← updateFramebuffer ui s.machine
  return { core := { s with machine := { machine with vramTouched := 1 } }, phase := .call }

end Kyacopycat
