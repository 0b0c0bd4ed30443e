import Kyacopycat.Musashi.Exception

/-!
The instruction stream: the fetch of an instruction and its operands.

* `executeInstruction_eq`: a turn of `m68k_execute` is a fetch and the handler of the opcode.
* `Core.fetch_code`, `m68kiReadImm16_code`: what is fetched from code in the RAM.
-/

namespace Kyacopycat

open BigEndian

variable {n : Nat}

/-- The turn of the loop of `m68k_execute` up to the handler of the instruction. -/
def Core.fetch (s : Core n) : Option (Core n) := do
  let s := { s with cpu := { s.cpu with ppc := s.cpu.pc, darSave := s.cpu.dar } }
  let (word, s) ← m68kiReadImm16 s
  let ir := word.toUInt16
  return { s with cpu := { s.cpu with ir }, log := s.log ++ [CoreEvent.instruction ir] }

/-- The turn after the handler. -/
def Core.finish (ops : Opcodes) (s : Core n) : Running n :=
  let s := s.useCycles (ops.cycles s.cpu.ir).toNat
  if s.cpu.remainingCycles > 0 then ⟨s, .loop⟩
  else ⟨{ s with cpu := { s.cpu with ppc := s.cpu.pc } }, .returned⟩

/-- `MAKE_INT_16`. -/
def makeInt16 (value : UInt32) : UInt32 := value.toUInt16.toInt16.toInt32.toUInt32

/-- What the fetch of an instruction leaves alone. -/
structure Fetched (s t : Core n) : Prop where
  ok : CoreOk s → CoreOk t
  dar : t.cpu.dar = s.cpu.dar
  sFlag : t.cpu.sFlag = s.cpu.sFlag
  user : t.cpu.stackPointer false = s.cpu.stackPointer false
  ram : t.machine.ram = s.machine.ram

/-- The word `w` of the program is in the RAM at `a`. -/
structure CodeAt (s : Core n) (a : UInt32) (w : UInt16) : Prop where
  span : InRamSpan n a 2
  word : value s.machine.ram (ramPlace a) 2 = w.toNat

/-- The core after the fetch of an opcode. -/
def Core.fetched (s : Core n) (w : UInt16) : Core n :=
  { s with
    cpu := { s.cpu with ppc := s.cpu.pc, darSave := s.cpu.dar, pc := s.cpu.pc + 2, ir := w }
    log := s.log ++ [CoreEvent.instruction w] }

/-- The core after an operand has been read. -/
def Core.pastOperand (s : Core n) : Core n :=
  { s with cpu := { s.cpu with pc := s.cpu.pc + 2 } }

variable {s t : Core n} {v : UInt32} {w : UInt16}

/-- A turn is a fetch and the handler. -/
theorem executeInstruction_eq (ui : Ui) (ops : Opcodes) (s : Core n) :
    executeInstruction ui ops s = s.fetch.bind fun s =>
      ((ops.handler s.cpu.ir).run ui s).map (Core.finish ops) := by
  rw [executeInstruction, Core.fetch]
  dsimp only
  cases m68kiReadImm16 { s with cpu := { s.cpu with ppc := s.cpu.pc, darSave := s.cpu.dar } } with
  | none => rfl
  | some r =>
    obtain ⟨word, u⟩ := r
    show ((ops.handler word.toUInt16).run ui _).bind _
      = ((ops.handler word.toUInt16).run ui _).map (Core.finish ops)
    rw [Option.map_eq_bind]
    refine Option.bind_congr fun u _ => ?_
    rw [Function.comp_apply, Core.finish]
    by_cases running : (u.useCycles (ops.cycles u.cpu.ir).toNat).cpu.remainingCycles > 0
    · exact (if_pos running).trans (congrArg some (if_pos running).symm)
    · exact (if_neg running).trans (congrArg some (if_neg running).symm)

/-- Reading an operand from the instruction stream. -/
theorem m68kiReadImm16_same (hn : n ≤ 0x400000) (h : m68kiReadImm16 s = some (v, t)) :
    t.cpu = { s.cpu with pc := s.cpu.pc + 2 } ∧ t.machine.ram = s.machine.ram :=
  Core.read_same (s := { s with cpu := { s.cpu with pc := s.cpu.pc + 2 } }) hn h

theorem Core.fetch_same (hn : n ≤ 0x400000) (h : s.fetch = some t) : Fetched s t := by
  obtain ⟨⟨word, u⟩, imm, h⟩ := Option.bind_eq_some_iff.mp h
  cases h
  obtain ⟨cpu, ram⟩ := m68kiReadImm16_same hn imm
  obtain ⟨cpu', machine, log⟩ := u
  obtain rfl : cpu' = _ := cpu
  exact ⟨fun ok => ok.congr rfl, rfl, rfl, rfl, ram⟩

/-- An operand in the RAM. -/
theorem m68kiReadImm16_code (size : SoundRamSize n) (mask : s.cpu.addressMask = 0x00ffffff)
    (code : CodeAt s s.cpu.pc w) : m68kiReadImm16 s = some (w.toUInt32, s.pastOperand) := by
  obtain ⟨span, word⟩ := code
  have hpc : s.cpu.pc + 2 - 2 = s.cpu.pc := UInt32.add_sub_cancel _ _
  have hread := Core.read_ram size (s := s.pastOperand) mask .word span
  rw [m68kiReadImm16]
  dsimp only
  rw [hpc]
  refine hread.trans (congrArg (fun v => some (v, s.pastOperand)) ?_)
  change UInt32.ofNat (value s.machine.ram (ramPlace s.cpu.pc) 2) = w.toUInt32
  apply UInt32.toNat_inj.mp
  have hlt := w.toNat_lt
  rw [word, UInt32.toNat_ofNat', UInt16.toNat_toUInt32]
  exact Nat.mod_eq_of_lt (by omega)

/-- An opcode in the RAM. -/
theorem Core.fetch_code (size : SoundRamSize n) (mask : s.cpu.addressMask = 0x00ffffff)
    (code : CodeAt s s.cpu.pc w) : s.fetch = some (s.fetched w) := by
  have imm := m68kiReadImm16_code (s := { s with
    cpu := { s.cpu with ppc := s.cpu.pc, darSave := s.cpu.dar } }) size mask
      ⟨code.span, code.word⟩
  have hw : w.toUInt32.toUInt16 = w := by simp
  rw [Core.fetch]
  dsimp only
  rw [imm]
  simp only [Option.bind_eq_bind, Option.bind_some, hw]
  rfl

/-- Code in a part of the RAM that stays. -/
theorem CodeAt.congr {a : UInt32} (code : CodeAt s a w)
    (same : ∀ i, ramPlace a ≤ i → i < ramPlace a + 2 → t.machine.ram i = s.machine.ram i) :
    CodeAt t a w :=
  ⟨code.span, (value_congr same).trans code.word⟩

end Kyacopycat
