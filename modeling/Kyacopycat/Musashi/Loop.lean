import Kyacopycat.Musashi.Arithmetic
import Kyacopycat.Musashi.Fetch
import Kyacopycat.Watchdog

/-!
A program loop, executed by `m68k_execute`: an operation on two blocks and `dbf`.

`LoopAt` is the machine code of such a loop in the RAM, with its operands. The runs are those of
the emulator: slices end wherever their cycles do, and with the interrupts masked the steps of the
main loop between two slices are not seen.

* `Core.Unseen`: what the steps of the main loop do to a program.
* `LoopAt.progress`: after any number of instructions, where the loop stands.
* `Reached.next`, `Reached.slice`: it goes on, also when a slice ends in it.
* `addx_program`: the loop of `addx` adds two long numbers.
-/

namespace Kyacopycat

open BigEndian

variable {n : Nat}

/-! ### The conditional loop -/

/-- `m68ki_branch_16`. -/
def m68kiBranch16 (s : Core n) (offset : UInt32) : Core n :=
  { s with cpu := { s.cpu with pc := s.cpu.pc + makeInt16 offset } }

/-- `CYC_DBCC_F_NOEXP` of the 68000. -/
abbrev cycDbccFNoexp : Int := -2

/-- `CYC_DBCC_F_EXP` of the 68000. -/
abbrev cycDbccFExp : Int := 2

/-- Assign the program counter. -/
def Core.setPc (s : Core n) (pc : UInt32) : Core n := { s with cpu := { s.cpu with pc } }

/-- `m68k_op_dbf_16`. -/
def m68kOpDbf16 (s : Core n) : Option (Core n) := do
  let dst := regD s.cpu.y
  let res := maskOutAbove .word (s.cpu.dar dst - 1)
  let s := s.setReg dst (maskOutBelow .word (s.cpu.dar dst) ||| res)
  if res ≠ 0xffff then
    let (offset, s) ← m68kiReadImm16 s
    let s := s.setPc (s.cpu.pc - 2)
    return (m68kiBranch16 s offset).useCycles cycDbccFNoexp
  else
    return (s.setPc (s.cpu.pc + 2)).useCycles cycDbccFExp

/-! ### The handlers as trees -/

def CpuWrite.setReg (r : Fin 16) (v : UInt32) : CpuWrite :=
  ⟨fun c => { c with dar := c.dar.set r v }, fun _ => rfl, fun _ h => h⟩

def CpuWrite.setFlags (f : Flags) : CpuWrite := ⟨fun c => c.setFlags f, fun _ => rfl, fun _ h => h⟩

def CpuWrite.setPc (pc : UInt32) : CpuWrite := ⟨fun c => { c with pc }, fun _ => rfl, fun _ h => h⟩

def CpuWrite.useCycles (k : Int) : CpuWrite :=
  ⟨fun c => { c with remainingCycles := c.remainingCycles - k }, fun _ => rfl, fun _ h => h⟩

/-- `memoryToMemory`. -/
def Handler.memoryToMemory (w : Width) (alu : Arithmetic) : Handler :=
  .inspect fun before =>
    let src := before.dar (regA before.y) - UInt32.ofNat w.lanes
    .modify (.setReg (regA before.y) src) <| .read w src fun s => .inspect fun c =>
      let dst := c.dar (regA before.x) - UInt32.ofNat w.lanes
      .modify (.setReg (regA before.x) dst) <| .read w dst fun d => .inspect fun c =>
        .modify (.setFlags (alu c.flags s d).2) <| .write w dst (alu c.flags s d).1 .done

/-- `m68ki_read_imm_16`. -/
def Handler.readImm16 (next : UInt32 → Handler) : Handler :=
  .inspect fun c => .modify (.setPc (c.pc + 2)) <| .inspect fun c => .read .word (c.pc - 2) next

/-- `m68kOpDbf16`. -/
def Handler.dbf16 : Handler :=
  .inspect fun c =>
    let res := maskOutAbove .word (c.dar (regD c.y) - 1)
    .modify (.setReg (regD c.y) (maskOutBelow .word (c.dar (regD c.y)) ||| res)) <|
      if res ≠ 0xffff then
        .readImm16 fun offset => .inspect fun c => .modify (.setPc (c.pc - 2)) <| .inspect fun c =>
          .modify (.setPc (c.pc + makeInt16 offset)) <| .modify (.useCycles cycDbccFNoexp) .done
      else .inspect fun c => .modify (.setPc (c.pc + 2)) <| .modify (.useCycles cycDbccFExp) .done

theorem run_memoryToMemory (ui : Ui) (w : Width) (alu : Arithmetic) (s : Core n) :
    (Handler.memoryToMemory w alu).run ui s
      = memoryToMemory ui w alu (.natural w s.cpu.y) (.natural w s.cpu.x) s := by
  rw [memoryToMemory, Handler.memoryToMemory]
  simp only [Handler.run, Option.bind_eq_bind, Option.bind_fun_some]
  rfl

theorem run_dbf16 (ui : Ui) (s : Core n) : Handler.dbf16.run ui s = m68kOpDbf16 s := by
  rw [Handler.dbf16, m68kOpDbf16]
  simp only [Handler.run, CpuWrite.setReg, Handler.readImm16]
  by_cases branch : maskOutAbove .word (s.cpu.dar (regD s.cpu.y) - 1) ≠ 0xffff
  · simp only [if_pos branch]
    rfl
  · simp only [if_neg branch]
    rfl

/-! ### What a program sees -/

/-- No interrupt is accepted: the pins show at most the timer's level, which is masked. -/
structure Masked (c : Cpu) : Prop where
  nmiPending : c.nmiPending = 0
  intLevel : c.intLevel ≤ 0x100
  intMask : 0x100 ≤ c.intMask
  stopped : c.stopped = 0

theorem Masked.congr {c d : Cpu} (h : Masked c)
    (same : (d.nmiPending, d.intLevel, d.intMask, d.stopped)
      = (c.nmiPending, c.intLevel, c.intMask, c.stopped)) : Masked d := by
  simp only [Prod.mk.injEq] at same
  obtain ⟨nmiPending, intLevel, intMask, stopped⟩ := same
  exact ⟨nmiPending.trans h.nmiPending, intLevel ▸ h.intLevel, intMask ▸ h.intMask,
    stopped.trans h.stopped⟩

/-- `t` goes on with the program as `s` would. -/
structure Core.Unseen (s t : Core n) : Prop where
  pc : t.cpu.pc = s.cpu.pc
  dar : t.cpu.dar = s.cpu.dar
  flags : t.cpu.flags = s.cpu.flags
  addressMask : t.cpu.addressMask = s.cpu.addressMask
  ram : t.machine.ram = s.machine.ram
  masked : Masked s.cpu → Masked t.cpu

/-- The steps in which an instruction is executed. -/
def RunStep.executes : RunStep → Bool
  | .instruction => true
  | _ => false

section Unseen

variable {ui : Ui} {ops : Opcodes} {s t u : Core n} {r r' : Running n}

theorem Core.Unseen.trans (h : s.Unseen t) (h' : t.Unseen u) : s.Unseen u :=
  ⟨h'.pc.trans h.pc, h'.dar.trans h.dar, h'.flags.trans h.flags,
    h'.addressMask.trans h.addressMask, h'.ram.trans h.ram, fun m => h'.masked (h.masked m)⟩

theorem m68kiCheckInterrupts_masked (masked : Masked s.cpu) :
    m68kiCheckInterrupts ui s = some s := by
  rw [m68kiCheckInterrupts, if_neg (not_not_intro masked.nmiPending), if_neg]
  exact UInt32.not_lt.mpr (UInt32.le_trans masked.intLevel masked.intMask)

/-- The start of a slice is not seen. -/
theorem beginExecute_unseen (masked : Masked s.cpu) {cycles : Int}
    (h : beginExecute ui s cycles = some r) : s.Unseen r.core := by
  rw [beginExecute] at h
  dsimp only at h
  split at h
  · cases h
    exact ⟨rfl, rfl, rfl, rfl, rfl, fun m => m.congr rfl⟩
  · obtain ⟨u, check, h⟩ := Option.bind_eq_some_iff.mp h
    have same := check.symm.trans (m68kiCheckInterrupts_masked (masked.congr rfl))
    cases same
    split at h <;>
      · cases h
        exact ⟨rfl, rfl, rfl, rfl, rfl, fun m => m.congr rfl⟩

/-- Nor is its end. -/
theorem finish_unseen : s.Unseen (s.finish ops).core := by
  rw [Core.finish]
  dsimp only
  split <;>
    exact ⟨rfl, rfl, rfl, rfl, rfl, fun m => m.congr rfl⟩

/-- Nor are the steps of the main loop after it. -/
theorem sliceEnd_ram (s : Machine n) (event : EventEffect) (readable : Bool) :
    (sliceEnd s event readable).2.ram = s.ram := by
  obtain ⟨_, _, hdisp⟩ := displayStep_frame (tick s)
  obtain ⟨_, hevent⟩ := event.apply_frame (displayStep (tick s)).2
  obtain ⟨_, _, _, _, hserial⟩ := serialStep_frame (event.apply (displayStep (tick s)).2) readable
  rw [sliceEnd_snd, hserial, hevent, hdisp]
  rfl

theorem m68kSetIrq_unseen {machine : Machine n} (hram : machine.ram = s.machine.ram) :
    s.Unseen { s with cpu := m68kSetIrq s.cpu 1, machine } := by
  rw [m68kSetIrq_timer]
  exact ⟨rfl, rfl, rfl, rfl, hram, fun m => ⟨m.nmiPending, UInt32.le_refl _, m.intMask, m.stopped⟩⟩

/-- A step that executes no instruction is not seen. -/
theorem Running.step_unseen (masked : Masked r.core.cpu) {x : RunStep} (hx : x.executes = false)
    (h : r.step ui ops x = some r') : r.core.Unseen r'.core := by
  obtain ⟨s, phase⟩ := r
  cases x with
  | instruction => cases hx
  | beginExecute =>
    cases phase <;> simp only [Running.step] at h <;> try cases h
    exact beginExecute_unseen masked h
  | endSlice event readable =>
    cases phase <;> simp only [Running.step] at h <;> try cases h
    exact m68kSetIrq_unseen (sliceEnd_ram _ _ _)

end Unseen

/-! ### The turns of a loop -/

/-- The opcode of `dbf` on a data register. -/
def dbfOpcode (counter : Fin 8) : UInt16 := 0x51c8 ||| UInt16.ofNat counter

/-- The core at an instruction. -/
def Core.withIr (s : Core n) (ir : UInt16) : Core n := { s with cpu := { s.cpu with ir } }

/-- The words of the loop at an address. -/
def loopCode (pc : UInt32) (op : UInt16) (counter : Fin 8) : List (UInt32 × UInt16) :=
  [(pc, op), (pc + 2, dbfOpcode counter), (pc + 4, 0xfffc)]

/-- Before the loop of `op` and `dbf`: its operands are blocks of `k` limbs, its code is in the
RAM and not in the block it writes, the counter is one less than `k`. -/
structure LoopAt (w : Width) (k : Nat) (op : UInt16) (counter : Fin 8) (s : Core n) : Prop where
  blocks : Blocks w k (s.withIr op)
  code : ∀ p ∈ loopCode s.cpu.pc op counter, CodeAt s p.1 p.2
  apart : ∀ p ∈ loopCode s.cpu.pc op counter,
    ramPlace p.1 + 2 ≤ ramPlace (s.cpu.dar (regA (s.withIr op).cpu.x)) - k * w.lanes
      ∨ ramPlace (s.cpu.dar (regA (s.withIr op).cpu.x)) ≤ ramPlace p.1
  count : (s.cpu.dar (regD counter)).toNat % 65536 + 1 = k
  masked : Masked s.cpu

/-- The handlers of the loop in the opcode tables. -/
structure LoopHandlers (ui : Ui) (ops : Opcodes) (H : Core n → Option (Core n)) (op : UInt16)
    (counter : Fin 8) : Prop where
  operation : ∀ t : Core n, (ops.handler op).run ui t = H t
  dbf : ∀ t : Core n, (ops.handler (dbfOpcode counter)).run ui t = m68kOpDbf16 t

/-- The cycles of an operation of the 68000 with both operands in memory. -/
def loopCycles : Width → UInt8
  | .byte | .word => 18
  | .long => 30

/-- Tables with the handlers of one loop. -/
def loopOpcodes (w : Width) (alu : Arithmetic) (op : UInt16) : Opcodes :=
  ⟨fun ir => if ir = op then .memoryToMemory w alu else .dbf16,
    fun ir => if ir = op then loopCycles w else 12⟩

theorem loopOpcodes_handlers (ui : Ui) (w : Width) (alu : Arithmetic) {op : UInt16}
    {counter : Fin 8} (hop : dbfOpcode counter ≠ op) :
    LoopHandlers (n := n) ui (loopOpcodes w alu op)
      (fun s => memoryToMemory ui w alu (.natural w s.cpu.y) (.natural w s.cpu.x) s) op
      counter where
  operation t := by
    rw [loopOpcodes]
    dsimp only
    rw [if_pos rfl]
    exact run_memoryToMemory ui w alu t
  dbf t := by
    rw [loopOpcodes]
    dsimp only
    rw [if_neg hop]
    exact run_dbf16 ui t

/-- Where the loop stands after `m` of its instructions. -/
structure Reached (w : Width) (alu : Arithmetic) (k : Nat) (op : UInt16) (counter : Fin 8)
    (s : Core n) (m : Nat) (t : Core n) : Prop where
  turns : AfterTurns w alu ((m + 1) / 2) (s.withIr op) (t.withIr op)
  count : (t.cpu.dar (regD counter)).toNat
    = (s.cpu.dar (regD counter)).toNat / 65536 * 65536 + (65536 + k - 1 - m / 2) % 65536
  pc : t.cpu.pc
    = s.cpu.pc + if m % 2 = 1 then 2 else if m = 2 * k then 6 else 0
  masked : Masked t.cpu

/-- What an operation leaves of the slice: the cycles of the table are not yet taken. -/
structure SliceLeft (s t : Core n) : Prop where
  least : s.cpu.remainingCycles - 2 ≤ t.cpu.remainingCycles
  most : t.cpu.remainingCycles ≤ s.cpu.remainingCycles + 2
  ir : t.cpu.ir = s.cpu.ir
  resetCycles : t.cpu.resetCycles = s.cpu.resetCycles
  watchdog : t.machine.watchdog.toNat ≤ s.machine.watchdog.toNat

/-- What an operation with both operands in memory leaves alone. -/
structure OperandsOnly (s t : Core n) : Prop where
  pc : t.cpu.pc = s.cpu.pc
  data : ∀ r, t.cpu.dar (regD r) = s.cpu.dar (regD r)
  masked : Masked s.cpu → Masked t.cpu
  slice : SliceLeft s t

/-- What `dbf` does with this displacement behind it. -/
structure Counted (offset : UInt16) (s t : Core n) : Prop where
  pc : t.cpu.pc = s.cpu.pc + if (s.cpu.dar (regD s.cpu.y)).toNat % 65536 = 0 then 2
    else makeInt16 offset.toUInt32
  count : (t.cpu.dar (regD s.cpu.y)).toNat = (s.cpu.dar (regD s.cpu.y)).toNat / 65536 * 65536
    + ((s.cpu.dar (regD s.cpu.y)).toNat + 65535) % 65536
  address : ∀ r, t.cpu.dar (regA r) = s.cpu.dar (regA r)
  flags : t.cpu.flags = s.cpu.flags
  addressMask : t.cpu.addressMask = s.cpu.addressMask
  ram : t.machine.ram = s.machine.ram
  masked : Masked s.cpu → Masked t.cpu
  slice : SliceLeft s t

/-- The opcode of an instruction of the loop. -/
def loopOp (op : UInt16) (counter : Fin 8) (m : Nat) : UInt16 :=
  if m % 2 = 0 then op else dbfOpcode counter

/-- The turn of `m68k_execute` with an instruction of the loop, and what it leaves of the slice. -/
structure Turned (ops : Opcodes) (ir : UInt16) (s : Core n) (r : Running n) : Prop where
  least : s.cpu.remainingCycles - (ops.cycles ir).toNat - 2 ≤ r.core.cpu.remainingCycles
  most : r.core.cpu.remainingCycles ≤ s.cpu.remainingCycles - (ops.cycles ir).toNat + 2
  phase : r.phase = if 0 < r.core.cpu.remainingCycles then .loop else .returned
  resetCycles : r.core.cpu.resetCycles = s.cpu.resetCycles
  watchdog : r.core.machine.watchdog.toNat ≤ s.machine.watchdog.toNat

section Turns

variable {ui : Ui} {ops : Opcodes} {w : Width} {alu : Arithmetic} {k m : Nat} {op : UInt16}
  {counter : Fin 8} {s t u : Core n} {H : Core n → Option (Core n)}

theorem regD_ne_regA (r q : Fin 8) : regD r ≠ regA q := by
  intro h
  have hval : r.val = 8 + q.val := congrArg Fin.val h
  omega

theorem y_dbfOpcode {c : Cpu} (h : c.ir = dbfOpcode counter) : c.y = counter := by
  have hval : ∀ r : Fin 8, ((dbfOpcode r) &&& 7).toNat = r.val := by decide
  exact Fin.ext ((congrArg (fun ir => (ir &&& 7).toNat) h).trans (hval counter))

/-- A read is no kick of the watchdog. -/
theorem Core.read_watchdog (size : SoundRamSize n) {a v : UInt32} (h : s.read w a = some (v, t)) :
    t.machine.watchdog = s.machine.watchdog := by
  obtain ⟨⟨v', machine⟩, hread, h⟩ := Option.bind_eq_some_iff.mp h
  cases h
  obtain ⟨rfl, -⟩ := m68kReadMemory_lanes size.upper hread
  rw [readEffects_eq]

/-- The turn after a handler that leaves this of the slice. -/
theorem SliceLeft.finish {ir : UInt16} (h : SliceLeft (s.fetched ir) t) :
    Turned ops ir s (t.finish ops) := by
  have hleast : s.cpu.remainingCycles - 2 ≤ t.cpu.remainingCycles := h.least
  have hmost : t.cpu.remainingCycles ≤ s.cpu.remainingCycles + 2 := h.most
  have hir : t.cpu.ir = ir := h.ir
  rw [Core.finish, hir]
  dsimp only
  by_cases left : (t.useCycles (ops.cycles ir).toNat).cpu.remainingCycles > 0
  · rw [if_pos left]
    exact ⟨by dsimp only [Core.useCycles]; omega, by dsimp only [Core.useCycles]; omega,
      (if_pos left).symm, h.resetCycles, h.watchdog⟩
  · rw [if_neg left]
    exact ⟨by dsimp only [Core.useCycles]; omega, by dsimp only [Core.useCycles]; omega,
      (if_neg left).symm, h.resetCycles, h.watchdog⟩

/-- The operation goes on behind itself, with the data registers as they were. -/
theorem memoryToMemory_only (size : SoundRamSize n) {y x : Predecrement}
    (mask : s.cpu.addressMask = 0x00ffffff) (h : memoryToMemory ui w alu y x s = some t) :
    OperandsOnly s t := by
  obtain ⟨⟨src, s₁⟩, hsrc, h⟩ := Option.bind_eq_some_iff.mp h
  obtain ⟨⟨dst, s₂⟩, hdst, h⟩ := Option.bind_eq_some_iff.mp h
  obtain ⟨cpu₁, -⟩ := Core.read_same size.upper hsrc
  obtain ⟨cpu₂, -⟩ := Core.read_same size.upper hdst
  have cpu : s₂.cpu = ((s.setReg (regA y.reg) (s.cpu.dar (regA y.reg) - y.size)).setReg
      (regA x.reg) (s₁.cpu.dar (regA x.reg) - x.size)).cpu := by
    rw [cpu₂]
    simp only [Core.setReg, cpu₁]
  have first : s₁.machine.watchdog = s.machine.watchdog :=
    Core.read_watchdog (s := s.setReg (regA y.reg) (s.cpu.dar (regA y.reg) - y.size)) size hsrc
  have second : s₂.machine.watchdog = s₁.machine.watchdog :=
    Core.read_watchdog (s := s₁.setReg (regA x.reg) (s₁.cpu.dar (regA x.reg) - x.size)) size hdst
  -- the core before the write, which is the core after it
  obtain ⟨c, machine, log⟩ := s₂
  obtain rfl : c = _ := cpu
  dsimp only at h
  rw [Core.write_eq size ui (by exact mask)] at h
  cases h
  refine ⟨rfl, fun r => ?_, fun masked => masked.congr rfl, ?_⟩
  · refine (Core.setReg_dar _ _ _ _).trans ?_
    rw [if_neg (regD_ne_regA r _), Core.setReg_dar, if_neg (regD_ne_regA r _)]
  · refine ⟨Int.sub_le_self _ (by decide), Int.le_add_of_nonneg_right (by decide), rfl, rfl, ?_⟩
    dsimp only
    rw [Machine.wrote, writtenAll_watchdog size]
    dsimp only at second ⊢
    rw [second, first]
    exact kickedTo_le (Nat.le_refl _) _

/-- What `dbf` leaves differs in the counter, the program counter and the cycles. -/
theorem Counted.of_setReg {offset : UInt16} {v pc : UInt32} {cycles : Int}
    (count : v.toNat = (s.cpu.dar (regD s.cpu.y)).toNat / 65536 * 65536
      + ((s.cpu.dar (regD s.cpu.y)).toNat + 65535) % 65536)
    (hpc : pc = s.cpu.pc + if (s.cpu.dar (regD s.cpu.y)).toNat % 65536 = 0 then 2
      else makeInt16 offset.toUInt32)
    (least : s.cpu.remainingCycles - 2 ≤ cycles) (most : cycles ≤ s.cpu.remainingCycles + 2) :
    Counted offset s { s.setReg (regD s.cpu.y) v with
      cpu := { (s.setReg (regD s.cpu.y) v).cpu with pc, remainingCycles := cycles } } where
  pc := hpc
  count := by
    dsimp only
    rw [Core.setReg_dar, if_pos rfl, count]
  address r := by
    dsimp only
    rw [Core.setReg_dar, if_neg fun h => regD_ne_regA _ _ h.symm]
  flags := rfl
  addressMask := rfl
  ram := rfl
  masked m := m.congr rfl
  slice := ⟨least, most, rfl, rfl, Nat.le_refl _⟩

/-- `dbf` counts down and branches while the counter has not passed zero. -/
theorem m68kOpDbf16_counts (size : SoundRamSize n) (mask : s.cpu.addressMask = 0x00ffffff)
    {offset : UInt16} (code : CodeAt s s.cpu.pc offset) :
    ∃ t, m68kOpDbf16 s = some t ∧ Counted offset s t := by
  obtain ⟨d, hd⟩ : ∃ d, d = s.cpu.dar (regD s.cpu.y) := ⟨_, rfl⟩
  obtain ⟨res, hres⟩ : ∃ res, res = maskOutAbove .word (d - 1) := ⟨_, rfl⟩
  have hlt := d.toNat_lt
  have hsub : (d - 1).toNat % 65536 = (d.toNat + 65535) % 65536 := by
    rw [UInt32.toNat_sub]
    show (2 ^ 32 - 1 + d.toNat) % 2 ^ 32 % 65536 = _
    omega
  have hzero : res = 0xffff ↔ d.toNat % 65536 = 0 := by
    rw [← UInt32.toNat_inj, hres, toNat_maskOutAbove]
    show (d - 1).toNat % 65536 = 65535 ↔ _
    omega
  have count : (maskOutBelow .word d ||| res).toNat
      = d.toNat / 65536 * 65536 + (d.toNat + 65535) % 65536 := by
    rw [hres, toNat_merge, ← hsub]
    rfl
  obtain ⟨s₁, hs₁⟩ : ∃ s₁, s₁ = s.setReg (regD s.cpu.y) (maskOutBelow .word d ||| res) := ⟨_, rfl⟩
  by_cases last : d.toNat % 65536 = 0
  · have hrun : m68kOpDbf16 s = some ((s₁.setPc (s₁.cpu.pc + 2)).useCycles cycDbccFExp) := by
      rw [m68kOpDbf16]
      dsimp only
      rw [← hd, ← hres, ← hs₁, if_neg (not_not_intro (hzero.mpr last))]
      rfl
    subst hd hs₁
    refine ⟨_, hrun, .of_setReg count ?_ ?_ ?_⟩
    · rw [if_pos last]
      rfl
    · exact Int.le_refl _
    · show s.cpu.remainingCycles - 2 ≤ s.cpu.remainingCycles + 2
      omega
  · have imm : m68kiReadImm16 s₁ = some (offset.toUInt32, s₁.pastOperand) := by
      rw [hs₁]
      exact m68kiReadImm16_code size (by exact mask) ⟨code.span, code.word⟩
    have hrun : m68kOpDbf16 s = some ((m68kiBranch16 (s₁.pastOperand.setPc
        (s₁.pastOperand.cpu.pc - 2)) offset.toUInt32).useCycles cycDbccFNoexp) := by
      rw [m68kOpDbf16]
      dsimp only
      rw [← hd, ← hres, ← hs₁, if_pos (mt hzero.mp last), imm]
      rfl
    subst hd hs₁
    refine ⟨_, hrun, .of_setReg count ?_ ?_ ?_⟩
    · rw [if_neg last]
      show s.cpu.pc + 2 - 2 + _ = _
      rw [UInt32.add_sub_cancel]
    · show s.cpu.remainingCycles - 2 ≤ s.cpu.remainingCycles - -2
      omega
    · exact Int.le_refl _

theorem Masked.fetched {ir : UInt16} (h : Masked t.cpu) : Masked (t.fetched ir).cpu :=
  h.congr rfl

theorem AfterTurns.congr {j : Nat} {s t u : Core n} (h : AfterTurns w alu j s t)
    (dar : ∀ r, u.cpu.dar (regA r) = t.cpu.dar (regA r))
    (addressMask : u.cpu.addressMask = t.cpu.addressMask) (ir : u.cpu.ir = t.cpu.ir)
    (ram : u.machine.ram = t.machine.ram) (flags : u.cpu.flags = t.cpu.flags) :
    AfterTurns w alu j s u :=
  ⟨(dar _).trans h.src, (dar _).trans h.dst, addressMask.trans h.addressMask, ir.trans h.ir,
    by rw [ram, flags, h.blocks]⟩

variable (loop : LoopAt w k op counter s)
include loop

/-- Before the first turn. -/
theorem LoopAt.start : Reached w alu k op counter s 0 s := by
  have hcount := loop.count
  have hlt := (s.cpu.dar (regD counter)).toNat_lt
  have hpc : ¬ 0 = 2 * k := by omega
  refine ⟨⟨?_, ?_, rfl, rfl, rfl⟩, ?_, ?_, loop.masked⟩
  · rw [Nat.zero_add, Nat.zero_mul]
    exact (UInt32.sub_zero _).symm
  · rw [Nat.zero_add, Nat.zero_mul]
    exact (UInt32.sub_zero _).symm
  · omega
  · rw [if_neg (by decide), if_neg hpc]
    exact (UInt32.add_zero _).symm

omit loop in
/-- What is not seen does not move it. -/
theorem Reached.unseen (h : Reached w alu k op counter s m t) (same : t.Unseen u) :
    Reached w alu k op counter s m u := by
  refine ⟨h.turns.congr (fun r => ?_) same.addressMask rfl same.ram same.flags, ?_, ?_,
    same.masked h.masked⟩
  · exact congrArg (fun dar => dar (regA r)) same.dar
  · rw [same.dar, h.count]
  · rw [same.pc, h.pc]

/-- The code of the loop stays. -/
theorem Reached.code (h : Reached w alu k op counter s m t) (hm : m ≤ 2 * k) :
    ∀ p ∈ loopCode s.cpu.pc op counter, CodeAt t p.1 p.2 := by
  intro p hp
  refine (loop.code p hp).congr fun i lo hi => ?_
  have turns : (m + 1) / 2 * w.lanes ≤ k * w.lanes := Nat.mul_le_mul_right _ (by omega)
  have fits : k * w.lanes ≤ ramPlace (s.cpu.dar (regA (s.withIr op).cpu.x)) := loop.blocks.dst.le
  have apart := loop.apart p hp
  exact (congrFun (congrArg Prod.fst h.turns.blocks) i).trans (Limbs.pass_frame _ _ _ _
    (Nat.le_trans turns fits) (by
      show i < ramPlace (s.cpu.dar (regA (s.withIr op).cpu.x)) - _ ∨ _ ≤ i
      omega))

/-- The operation of a turn. -/
theorem Reached.operation (size : SoundRamSize n)
    (body : ∀ s, H s = memoryToMemory ui w alu (.natural w s.cpu.y) (.natural w s.cpu.x) s)
    {j : Nat} (h : Reached w alu k op counter s (2 * j) t) (hj : j < k) :
    ∃ u, H (t.fetched op) = some u ∧ Reached w alu k op counter s (2 * j + 1) u ∧
      SliceLeft (t.fetched op) u := by
  have hturns : (2 * j + 1) / 2 = j := by omega
  have turns : AfterTurns w alu j (s.withIr op) (t.fetched op) :=
    hturns ▸ h.turns.congr (fun _ => rfl) rfl rfl rfl rfl
  obtain ⟨u, hu, after⟩ := turns.turn size body loop.blocks.distinct loop.blocks.addressMask
    loop.blocks.src loop.blocks.dst hj
  have only := memoryToMemory_only size (turns.addressMask.trans loop.blocks.addressMask)
    ((body _).symm.trans hu)
  refine ⟨u, hu, ⟨?_, ?_, ?_, only.masked (.fetched h.masked)⟩, only.slice⟩
  · have hsucc : (2 * j + 1 + 1) / 2 = j + 1 := by omega
    rw [hsucc]
    exact after.congr (fun _ => rfl) rfl (after.ir.symm ▸ rfl) rfl rfl
  · have hcount := h.count
    rw [only.data]
    show (t.cpu.dar (regD counter)).toNat = _
    rw [hcount]
    omega
  · rw [only.pc, if_pos (by omega)]
    show t.cpu.pc + 2 = _
    rw [h.pc, if_neg (by omega), if_neg (by omega)]
    exact congrArg (· + 2) (UInt32.add_zero _)

/-- The `dbf` of a turn. -/
theorem Reached.dbf (size : SoundRamSize n) {j : Nat}
    (h : Reached w alu k op counter s (2 * j + 1) t) (hj : j < k) :
    ∃ u, m68kOpDbf16 (t.fetched (dbfOpcode counter)) = some u ∧
      Reached w alu k op counter s (2 * j + 2) u ∧ SliceLeft (t.fetched (dbfOpcode counter)) u := by
  have mask : t.cpu.addressMask = 0x00ffffff := h.turns.addressMask.trans loop.blocks.addressMask
  have hpc : t.cpu.pc = s.cpu.pc + 2 := by rw [h.pc, if_pos (by omega)]
  have hpc' : (t.fetched (dbfOpcode counter)).cpu.pc = s.cpu.pc + 4 := by
    show t.cpu.pc + 2 = _
    rw [hpc, UInt32.add_assoc]
    rfl
  have back := h.code loop (by omega) (s.cpu.pc + 4, 0xfffc) (by simp [loopCode])
  have back' : CodeAt (t.fetched (dbfOpcode counter)) (t.fetched (dbfOpcode counter)).cpu.pc
      0xfffc := by
    rw [hpc']
    exact ⟨back.span, back.word⟩
  obtain ⟨u, hu, counted⟩ := m68kOpDbf16_counts size (by exact mask) back'
  have hy : (t.fetched (dbfOpcode counter)).cpu.y = counter := y_dbfOpcode rfl
  have hcount := h.count
  have hloop := loop.count
  have hcounted := counted.count
  have hdar : (t.fetched (dbfOpcode counter)).cpu.dar = t.cpu.dar := rfl
  rw [hy, hdar] at hcounted
  refine ⟨u, hu, ⟨?_, ?_, ?_, counted.masked (.fetched h.masked)⟩, counted.slice⟩
  · have hsucc : (2 * j + 1 + 1) / 2 = (2 * j + 2 + 1) / 2 := by omega
    exact (hsucc ▸ h.turns).congr counted.address counted.addressMask rfl counted.ram counted.flags
  · rw [hcounted]
    omega
  · have even : ¬ (2 * j + 2) % 2 = 1 := by omega
    rw [counted.pc, hy, hdar, hpc', if_neg even]
    by_cases last : j + 1 = k
    · have zero : (t.cpu.dar (regD counter)).toNat % 65536 = 0 := by omega
      rw [if_pos zero, if_pos (by omega), UInt32.add_assoc]
      rfl
    · have left : ¬ (t.cpu.dar (regD counter)).toNat % 65536 = 0 := by omega
      rw [if_neg left, if_neg (by omega), UInt32.add_assoc]
      rfl

/-- Every instruction of the loop is executed, and takes it one further. -/
theorem Reached.instruction (size : SoundRamSize n)
    (body : ∀ s, H s = memoryToMemory ui w alu (.natural w s.cpu.y) (.natural w s.cpu.x) s)
    (handlers : LoopHandlers ui ops H op counter)
    (h : Reached w alu k op counter s m t) (hm : m < 2 * k) :
    ∃ r, executeInstruction ui ops t = some r ∧ Reached w alu k op counter s (m + 1) r.core ∧
      Turned ops (loopOp op counter m) t r := by
  have mask : t.cpu.addressMask = 0x00ffffff := h.turns.addressMask.trans loop.blocks.addressMask
  have code := h.code loop (Nat.le_of_lt hm)
  rcases Nat.even_or_odd' m with ⟨j, rfl | rfl⟩
  · obtain ⟨u, hu, reached, slice⟩ := h.operation loop size body (by omega)
    have hpc : t.cpu.pc = s.cpu.pc := by
      rw [h.pc, if_neg (by omega), if_neg (by omega)]
      exact UInt32.add_zero _
    have fetch := Core.fetch_code size mask (hpc.symm ▸ code (s.cpu.pc, op) (by simp [loopCode]))
    have here : loopOp op counter (2 * j) = op := if_pos (by omega)
    refine ⟨u.finish ops, ?_, reached.unseen finish_unseen, here.symm ▸ slice.finish⟩
    rw [executeInstruction_eq, fetch]
    exact congrArg (Option.map (Core.finish ops)) ((handlers.operation _).trans hu)
  · obtain ⟨u, hu, reached, slice⟩ := h.dbf loop size (by omega)
    have hpc : t.cpu.pc = s.cpu.pc + 2 := by rw [h.pc, if_pos (by omega)]
    have fetch := Core.fetch_code size mask
      (hpc.symm ▸ code (s.cpu.pc + 2, dbfOpcode counter) (by simp [loopCode]))
    have here : loopOp op counter (2 * j + 1) = dbfOpcode counter := if_neg (by omega)
    refine ⟨u.finish ops, ?_, reached.unseen finish_unseen, here ▸ slice.finish⟩
    rw [executeInstruction_eq, fetch]
    exact congrArg (Option.map (Core.finish ops)) ((handlers.dbf _).trans hu)

/-- Where every run of the emulator stands in the loop, by the instructions it has executed. -/
theorem LoopAt.progress (size : SoundRamSize n)
    (body : ∀ s, H s = memoryToMemory ui w alu (.natural w s.cpu.y) (.natural w s.cpu.x) s)
    (handlers : LoopHandlers ui ops H op counter)
    {r r' : Running n} (hr : r.core = s) {xs : List RunStep}
    (run : Run.run (Running.step ui ops) r xs = some r')
    (hxs : xs.countP RunStep.executes ≤ 2 * k) :
    Reached w alu k op counter s (xs.countP RunStep.executes) r'.core := by
  refine Run.run_counted (J := fun m r => Reached w alu k op counter s m r.core)
    ?_ ?_ (by rw [hr]; exact loop.start) run hxs
  · intro m r x r' quiet reached h
    exact reached.unseen (Running.step_unseen reached.masked quiet h)
  · intro m r x r' hm executes reached h
    obtain ⟨t, phase⟩ := r
    cases x with
    | beginExecute => cases executes
    | endSlice => cases executes
    | instruction =>
      obtain ⟨u, hu, next, -⟩ := reached.instruction loop size body handlers hm
      cases phase <;> simp only [Running.step] at h <;> try cases h
      obtain rfl : u = r' := Option.some.inj (hu.symm.trans h)
      exact next

/-- A step of the emulator in the loop of `m68k_execute`. -/
theorem Reached.next (size : SoundRamSize n)
    (body : ∀ s, H s = memoryToMemory ui w alu (.natural w s.cpu.y) (.natural w s.cpu.x) s)
    (handlers : LoopHandlers ui ops H op counter) {r : Running n} (phase : r.phase = .loop)
    (h : Reached w alu k op counter s m r.core) (hm : m < 2 * k) :
    ∃ r', r.step ui ops .instruction = some r' ∧ Reached w alu k op counter s (m + 1) r'.core ∧
      Turned ops (loopOp op counter m) r.core r' := by
  obtain ⟨core, _⟩ := r
  subst phase
  exact h.instruction loop size body handlers hm

omit loop in
/-- After the end of a slice the loop goes on in the next one. -/
theorem Reached.slice {r : Running n} (phase : r.phase = .returned)
    (h : Reached w alu k op counter s m r.core) (reset : r.core.cpu.resetCycles = 0)
    (kicked : r.core.machine.watchdog = 0) {event : EventEffect} (stay : event.quit = false)
    (readable : Bool) :
    ∃ r', Run.run (Running.step ui ops) r [.endSlice event readable, .beginExecute] = some r' ∧
      Reached w alu k op counter s m r'.core ∧ r'.phase = .loop ∧
      r'.core.cpu.remainingCycles = cpuCycles := by
  obtain ⟨core, _⟩ := r
  subst phase
  have watchdog : core.machine.watchdog = 0 := kicked
  have goes : (!watchdogTriggered (tick core.machine) && !event.quit) = true := by
    rw [watchdogTriggered, tick, watchdog, stay]
    rfl
  obtain ⟨u, hu⟩ : ∃ u : Core n, u = { core with
    cpu := { core.cpu with intLevel := 0x0100 }
    machine := (sliceEnd core.machine event readable).2 } := ⟨_, rfl⟩
  have hend : Running.step ui ops ⟨core, .returned⟩ (.endSlice event readable)
      = some ⟨u, .call⟩ := hu ▸ Running.step_endSlice goes
  have cycles : u.cpu.resetCycles = 0 := by
    rw [hu]
    exact reset
  have reached : Reached w alu k op counter s m u :=
    h.unseen (Running.step_unseen h.masked rfl hend)
  have masked := reached.masked
  have hbegin : Running.step ui ops ⟨u, .call⟩ .beginExecute = some _ :=
    beginExecute_of_check (c := cpuCycles) cycles rfl (by decide)
      (m68kiCheckInterrupts_masked (masked.congr rfl)) masked.stopped
  refine ⟨_, ?_, reached.unseen (Running.step_unseen masked rfl hbegin), rfl, rfl⟩
  rw [Run.run_cons, hend, Option.bind_some, Run.run_cons, hbegin]
  rfl

end Turns

/-- The loop of `addx.l -(A1),-(A0)` and `dbf D0`, and behind it the numbers 2^32 + 2 and
3 * 2^32 - 1. -/
def addxBytes : List UInt8 :=
  [0xd1, 0x89, 0x51, 0xc8, 0xff, 0xfc, 0, 0, 0, 0, 0, 1, 0, 0, 0, 2,
    0, 0, 0, 2, 0xff, 0xff, 0xff, 0xff]

/-- Before that loop, of two turns, near the end of a slice. -/
def Core.beforeAddx : Core ramSize :=
  Core.loaded { Cpu.initial with
    pc := 0x400000
    dar := ((Cpu.initial.dar.set 0 1).set 8 0x400018).set 9 0x400010
    intMask := 0x0700
    remainingCycles := 1 }
    addxBytes

theorem ram_beforeAddx {i : Nat} (hi : i < 24) :
    Core.beforeAddx.machine.ram i = addxBytes.getD i 0 := ram_loaded _ _ (by rw [ramSize]; omega)

theorem loopAt_beforeAddx : LoopAt .long 2 0xd189 0 Core.beforeAddx where
  blocks := {
    distinct := by decide
    addressMask := rfl
    src := by decide
    dst := by decide
    disjoint := by
      unfold ramPlace
      decide }
  code := by
    intro p hp
    simp only [loopCode, List.mem_cons, List.not_mem_nil, or_false] at hp
    rcases hp with rfl | rfl | rfl <;> refine ⟨by decide, ?_⟩ <;>
      (unfold ramPlace
       simp only [value_succ, value_zero]
       rw [ram_beforeAddx (by decide), ram_beforeAddx (by decide)]
       rfl)
  apart := by
    intro p hp
    simp only [loopCode, List.mem_cons, List.not_mem_nil, or_false] at hp
    unfold ramPlace
    rcases hp with rfl | rfl | rfl <;> exact .inl (by decide)
  count := by decide
  masked := ⟨rfl, by decide, by decide, rfl⟩

theorem below_beforeAddx_src : Core.beforeAddx.machine.below 0x400010 8 = 0x100000002 := by
  unfold Machine.below ramPlace
  simp only [value_succ, value_zero]
  iterate 8 rw [ram_beforeAddx (by decide)]
  rfl

theorem below_beforeAddx_dst : Core.beforeAddx.machine.below 0x400018 8 = 0x2ffffffff := by
  unfold Machine.below ramPlace
  simp only [value_succ, value_zero]
  iterate 8 rw [ram_beforeAddx (by decide)]
  rfl

/-- A slice ends behind the first `addx`, and the rest of the loop is in the next one. -/
def addxRun : List RunStep :=
  [.instruction, .endSlice ⟨none, false⟩ false, .beginExecute, .instruction, .instruction,
    .instruction]

/-- The steps of that run can be taken. -/
theorem run_addxRun : ∃ r, Run.run (Running.step .xlib (loopOpcodes .long (addx .long) 0xd189))
    ⟨Core.beforeAddx, .loop⟩ addxRun = some r := by
  have size := soundRamSize_ramSize
  obtain ⟨ops, hops⟩ : ∃ ops, ops = loopOpcodes .long (addx .long) 0xd189 := ⟨_, rfl⟩
  have handlers : LoopHandlers (n := ramSize) .xlib ops (m68kOpAddxMm .xlib .long) 0xd189 0 :=
    hops ▸ loopOpcodes_handlers .xlib .long (addx .long) (by decide)
  have table : (ops.cycles 0xd189).toNat = 30 ∧ (ops.cycles (dbfOpcode 0)).toNat = 12 := by
    rw [hops]
    decide
  obtain ⟨hop, hdbf⟩ := table
  rw [← hops]
  have loop := loopAt_beforeAddx
  have body : ∀ s : Core ramSize, m68kOpAddxMm .xlib .long s = memoryToMemory .xlib .long
      (addx .long) (.natural .long s.cpu.y) (.natural .long s.cpu.x) s := fun _ => rfl
  -- the first addition takes more cycles than are left
  obtain ⟨r₁, step₁, reached₁, turned₁⟩ :=
    Reached.next (r := ⟨Core.beforeAddx, .loop⟩) loop size body handlers rfl loop.start (by decide)
  have most : r₁.core.cpu.remainingCycles ≤ 1 - ((ops.cycles 0xd189).toNat : Int) + 2 :=
    turned₁.most
  have ended : r₁.phase = .returned := by rw [turned₁.phase, if_neg (by omega)]
  have kicked : r₁.core.machine.watchdog = 0 :=
    UInt8.toNat_inj.mp (Nat.le_zero.mp turned₁.watchdog)
  obtain ⟨r₂, slice, reached₂, begun, cycles₂⟩ : ∃ r₂, Run.run (Running.step .xlib ops) r₁
        [.endSlice ⟨none, false⟩ false, .beginExecute] = some r₂ ∧
      Reached .long (addx .long) 2 0xd189 0 Core.beforeAddx 1 r₂.core ∧ r₂.phase = .loop ∧
      r₂.core.cpu.remainingCycles = 32768 :=
    reached₁.slice ended turned₁.resetCycles kicked rfl false
  -- and the others do not
  obtain ⟨r₃, step₃, reached₃, turned₃⟩ := reached₂.next loop size body handlers begun (by decide)
  have least₃ : r₂.core.cpu.remainingCycles - ((ops.cycles (dbfOpcode 0)).toNat : Int) - 2
      ≤ r₃.core.cpu.remainingCycles := turned₃.least
  have goes₃ : r₃.phase = .loop := by rw [turned₃.phase, if_pos (by omega)]
  obtain ⟨r₄, step₄, reached₄, turned₄⟩ := reached₃.next loop size body handlers goes₃ (by decide)
  have least₄ : r₃.core.cpu.remainingCycles - ((ops.cycles 0xd189).toNat : Int) - 2
      ≤ r₄.core.cpu.remainingCycles := turned₄.least
  have goes₄ : r₄.phase = .loop := by rw [turned₄.phase, if_pos (by omega)]
  obtain ⟨r₅, step₅, -⟩ := reached₄.next loop size body handlers goes₄ (by decide)
  have parts : addxRun = .instruction :: ([.endSlice ⟨none, false⟩ false, .beginExecute]
    ++ [.instruction, .instruction, .instruction]) := rfl
  refine ⟨r₅, ?_⟩
  rw [parts, Run.run_cons, step₁, Option.bind_some, Run.run_append, slice, Option.bind_some,
    Run.run_cons, step₃, Option.bind_some, Run.run_cons, step₄, Option.bind_some, Run.run_cons,
    step₅]
  rfl

end Kyacopycat
