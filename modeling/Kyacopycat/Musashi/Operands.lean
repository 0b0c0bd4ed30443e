import Kyacopycat.Lib.Limbs
import Kyacopycat.Musashi.Flags
import Kyacopycat.Musashi.Ram

/-!
Registers and operands of the instruction handlers.

The handlers with both operands in memory, `-(Ay),-(Ax)`, differ in their arithmetic only:
`memoryToMemory` is their common body. `Chain` is a loop of such a handler, with anything
between its turns that leaves its address registers, the condition codes and the RAM alone.

* `memoryToMemory_eq`: one turn on operands in the RAM, as a step on limbs.
* `chain_pass`: a loop is a pass of the operation over the two blocks.
-/

namespace Kyacopycat

open BigEndian

variable {n : Nat}

/-! ### Registers -/

/-- `REG_D`, as a place in `REG_DA`. -/
def regD (r : Fin 8) : Fin 16 := r.castLE (by decide)

/-- `REG_A`, as a place in `REG_DA`. -/
def regA (r : Fin 8) : Fin 16 := r.natAdd 8

/-- The register X of the instruction. -/
def Cpu.x (c : Cpu) : Fin 8 :=
  ⟨((c.ir >>> 9) &&& 7).toNat, by
    rw [UInt16.toNat_and]
    exact Nat.lt_of_le_of_lt Nat.and_le_right (by decide)⟩

/-- The register Y of the instruction. -/
def Cpu.y (c : Cpu) : Fin 8 :=
  ⟨(c.ir &&& 7).toNat, by
    rw [UInt16.toNat_and]
    exact Nat.lt_of_le_of_lt Nat.and_le_right (by decide)⟩

/-- Assign a register. -/
def Core.setReg (s : Core n) (r : Fin 16) (v : UInt32) : Core n :=
  { s with cpu := { s.cpu with dar := s.cpu.dar.set r v } }

theorem Core.setReg_dar (s : Core n) (r : Fin 16) (v : UInt32) (q : Fin 16) :
    (s.setReg r v).cpu.dar q = if q = r then v else s.cpu.dar q := by
  simp [Core.setReg, Fin.ext_iff]

/-! ### Operands in memory -/

/-- An address register with the step of its predecrement. -/
structure Predecrement where
  reg : Fin 8
  size : UInt32

/-- `EA_AY_PD_8` and its kind. -/
def Predecrement.ea (p : Predecrement) (s : Core n) : UInt32 × Core n :=
  let ea := s.cpu.dar (regA p.reg) - p.size
  (ea, s.setReg (regA p.reg) ea)

/-- `OPER_AY_PD_8` and its kind. -/
def Predecrement.oper (p : Predecrement) (w : Width) (s : Core n) : Option (UInt32 × Core n) :=
  let (ea, s) := p.ea s
  s.read w ea

/-- The arithmetic of a handler: from the condition codes, the source and the destination to
the result and the condition codes. -/
abbrev Arithmetic := Flags → (src dst : UInt32) → UInt32 × Flags

/-- The handlers with both operands in memory. -/
def memoryToMemory (ui : Ui) (w : Width) (alu : Arithmetic) (y x : Predecrement) (s : Core n) :
    Option (Core n) := do
  let (src, s) ← y.oper w s
  let (ea, s) := x.ea s
  let (dst, s) ← s.read w ea
  let (res, flags) := alu s.cpu.flags src dst
  Core.write ui w { s with cpu := s.cpu.setFlags flags } ea res

/-- Predecrement by the size of the operand. -/
def Predecrement.natural (w : Width) (reg : Fin 8) : Predecrement := ⟨reg, UInt32.ofNat w.lanes⟩

/-- The arithmetic on the numbers of its operands. -/
def Arithmetic.limbs (alu : Arithmetic) : Limbs.Operation Flags := fun f s d =>
  ((alu f (UInt32.ofNat s) (UInt32.ofNat d)).1.toNat,
    (alu f (UInt32.ofNat s) (UInt32.ofNat d)).2)

theorem regA_inj {r q : Fin 8} : regA r = regA q ↔ r = q := by
  simp [regA, Fin.ext_iff]

/-- One turn on operands in the RAM is a step on limbs. -/
theorem memoryToMemory_eq (size : SoundRamSize n) (ui : Ui) (w : Width) (alu : Arithmetic)
    {y x : Fin 8} (distinct : y ≠ x) {s : Core n} (mask : s.cpu.addressMask = 0x00ffffff)
    {src dst : UInt32} (hsrc : src = s.cpu.dar (regA y) - UInt32.ofNat w.lanes)
    (hdst : dst = s.cpu.dar (regA x) - UInt32.ofNat w.lanes)
    (inSrc : InRamSpan n src w.lanes) (inDst : InRamSpan n dst w.lanes) :
    ∃ t, memoryToMemory ui w alu (.natural w y) (.natural w x) s = some t ∧
      (t.machine.ram, t.cpu.flags) = Limbs.step alu.limbs w.lanes (ramPlace src) (ramPlace dst)
        (s.machine.ram, s.cpu.flags) ∧
      t.cpu.dar (regA y) = src ∧ t.cpu.dar (regA x) = dst ∧
      t.cpu.addressMask = s.cpu.addressMask ∧ t.cpu.ir = s.cpu.ir := by
  have hne : ¬ regA x = regA y := fun h => distinct (regA_inj.mp h).symm
  have hreadSrc : (Predecrement.natural w y).oper w s
      = some (UInt32.ofNat (value s.machine.ram (ramPlace src) w.lanes),
          s.setReg (regA y) src) := by
    rw [Predecrement.oper, Predecrement.ea, Predecrement.natural]
    dsimp only
    rw [← hsrc]
    exact Core.read_ram size (s := s.setReg (regA y) src) mask w inSrc
  have hea : (Predecrement.natural w x).ea (s.setReg (regA y) src)
      = (dst, (s.setReg (regA y) src).setReg (regA x) dst) := by
    rw [Predecrement.ea, Predecrement.natural]
    dsimp only
    rw [Core.setReg_dar, if_neg hne, ← hdst]
  have hreadDst : ((s.setReg (regA y) src).setReg (regA x) dst).read w dst
      = some (UInt32.ofNat (value s.machine.ram (ramPlace dst) w.lanes),
          (s.setReg (regA y) src).setReg (regA x) dst) :=
    Core.read_ram size (s := (s.setReg (regA y) src).setReg (regA x) dst) mask w inDst
  rw [memoryToMemory, hreadSrc]
  simp only [Option.bind_eq_bind, Option.bind_some, hea, hreadDst]
  rw [Core.write_eq size ui (by exact mask)]
  refine ⟨_, rfl, ?_, ?_, ?_, rfl, rfl⟩
  · rw [Limbs.step, Machine.ram_wrote ui _ _ inDst]
    rfl
  · show (((s.setReg (regA y) src).setReg (regA x) dst)).cpu.dar (regA y) = src
    rw [Core.setReg_dar, if_neg fun h => hne h.symm, Core.setReg_dar, if_pos rfl]
  · show (((s.setReg (regA y) src).setReg (regA x) dst)).cpu.dar (regA x) = dst
    rw [Core.setReg_dar, if_pos rfl]

/-! ### Loops -/

/-- The `k` bytes below an address of the core are RAM. -/
def InRamBelow (n : Nat) (a : UInt32) (k : Nat) : Prop :=
  0x400000 + k ≤ a.toNat % 0x1000000 ∧ a.toNat % 0x1000000 ≤ 0x400000 + n

instance (a : UInt32) (k : Nat) : Decidable (InRamBelow n a k) := by
  unfold InRamBelow; infer_instance

theorem InRamBelow.le {a : UInt32} {k : Nat} (h : InRamBelow n a k) : k ≤ ramPlace a := by
  obtain ⟨lo, hi⟩ := h
  unfold ramPlace
  omega

/-- A limb of a block. -/
theorem InRamBelow.limb {a : UInt32} {l m k : Nat} (h : InRamBelow n a (m * l)) (hk : k < m)
    (hm : n ≤ 0x400000) :
    InRamSpan n (a - UInt32.ofNat ((k + 1) * l)) l ∧
      ramPlace (a - UInt32.ofNat ((k + 1) * l)) = ramPlace a - (k + 1) * l := by
  have hkl : (k + 1) * l ≤ m * l := Nat.mul_le_mul_right l hk
  have hsplit : (k + 1) * l = k * l + l := by ring
  have hlt := a.toNat_lt
  obtain ⟨lo, hi⟩ := h
  have hsub : (a - UInt32.ofNat ((k + 1) * l)).toNat = a.toNat - (k + 1) * l := by
    rw [UInt32.toNat_sub, UInt32.toNat_ofNat']
    omega
  unfold InRamSpan ramPlace
  rw [hsub]
  omega

/-- What happens between two turns of a loop leaves the two address registers of the operation, the
flags and the RAM as they were. -/
structure SameOperands (s t : Core n) : Prop where
  src : t.cpu.dar (regA s.cpu.y) = s.cpu.dar (regA s.cpu.y)
  dst : t.cpu.dar (regA s.cpu.x) = s.cpu.dar (regA s.cpu.x)
  flags : t.cpu.flags = s.cpu.flags
  ram : t.machine.ram = s.machine.ram
  addressMask : t.cpu.addressMask = s.cpu.addressMask
  ir : t.cpu.ir = s.cpu.ir

/-- A handler executed `k` times. -/
inductive Chain (handler : Core n → Option (Core n)) : Nat → Core n → Core n → Prop where
  | start (s : Core n) : Chain handler 0 s s
  | turn {k : Nat} {s t u v : Core n} (before : Chain handler k s t) (now : handler t = some u)
      (between : SameOperands u v) : Chain handler (k + 1) s v

/-- Where a loop over two blocks stands after `k` turns. -/
structure AfterTurns (w : Width) (alu : Arithmetic) (k : Nat) (s t : Core n) : Prop where
  src : t.cpu.dar (regA s.cpu.y) = s.cpu.dar (regA s.cpu.y) - UInt32.ofNat (k * w.lanes)
  dst : t.cpu.dar (regA s.cpu.x) = s.cpu.dar (regA s.cpu.x) - UInt32.ofNat (k * w.lanes)
  addressMask : t.cpu.addressMask = s.cpu.addressMask
  ir : t.cpu.ir = s.cpu.ir
  blocks : (t.machine.ram, t.cpu.flags) = Limbs.pass alu.limbs w.lanes
    (ramPlace (s.cpu.dar (regA s.cpu.y))) (ramPlace (s.cpu.dar (regA s.cpu.x))) k
    (s.machine.ram, s.cpu.flags)

theorem sub_lanes_succ (a : UInt32) (k l : Nat) :
    a - UInt32.ofNat (k * l) - UInt32.ofNat l = a - UInt32.ofNat ((k + 1) * l) := by
  rw [Nat.succ_mul, UInt32.ofNat_add]
  grind

section Loop

variable {ui : Ui} {w : Width} {alu : Arithmetic} {handler : Core n → Option (Core n)}
  {s : Core n} {m : Nat}

/-- One more turn of a loop. -/
theorem AfterTurns.turn (size : SoundRamSize n)
    (body : ∀ s, handler s
      = memoryToMemory ui w alu (.natural w s.cpu.y) (.natural w s.cpu.x) s)
    (distinct : s.cpu.y ≠ s.cpu.x) (mask : s.cpu.addressMask = 0x00ffffff)
    (inSrc : InRamBelow n (s.cpu.dar (regA s.cpu.y)) (m * w.lanes))
    (inDst : InRamBelow n (s.cpu.dar (regA s.cpu.x)) (m * w.lanes)) {k : Nat} (hk : k < m)
    {t : Core n} (h : AfterTurns w alu k s t) :
    ∃ u, handler t = some u ∧ AfterTurns w alu (k + 1) s u := by
  obtain ⟨spanSrc, placeSrc⟩ := inSrc.limb hk size.upper
  obtain ⟨spanDst, placeDst⟩ := inDst.limb hk size.upper
  have hx : t.cpu.x = s.cpu.x := by simp only [Cpu.x, h.ir]
  have hy : t.cpu.y = s.cpu.y := by simp only [Cpu.y, h.ir]
  have hsrc := sub_lanes_succ (s.cpu.dar (regA s.cpu.y)) k w.lanes
  have hdst := sub_lanes_succ (s.cpu.dar (regA s.cpu.x)) k w.lanes
  rw [← h.src] at hsrc
  rw [← h.dst] at hdst
  obtain ⟨u, hu, blocks, src, dst, hmask, hir⟩ := memoryToMemory_eq size ui w alu distinct
    (h.addressMask.trans mask) hsrc.symm hdst.symm spanSrc spanDst
  refine ⟨u, by rw [body, hx, hy, hu], src, dst, hmask.trans h.addressMask, hir.trans h.ir, ?_⟩
  rw [blocks, placeSrc, placeDst, h.blocks, Limbs.pass_succ]

/-- A loop over two blocks in the RAM can be run and is a pass over them. -/
theorem chain_pass (size : SoundRamSize n)
    (body : ∀ s, handler s
      = memoryToMemory ui w alu (.natural w s.cpu.y) (.natural w s.cpu.x) s)
    (distinct : s.cpu.y ≠ s.cpu.x) (mask : s.cpu.addressMask = 0x00ffffff)
    (inSrc : InRamBelow n (s.cpu.dar (regA s.cpu.y)) (m * w.lanes))
    (inDst : InRamBelow n (s.cpu.dar (regA s.cpu.x)) (m * w.lanes)) {k : Nat} (hk : k ≤ m) :
    (∃ t, Chain handler k s t) ∧ ∀ t, Chain handler k s t → AfterTurns w alu k s t := by
  have start : AfterTurns w alu 0 s s :=
    ⟨by rw [Nat.zero_mul]; exact (UInt32.sub_zero _).symm,
      by rw [Nat.zero_mul]; exact (UInt32.sub_zero _).symm, rfl, rfl, rfl⟩
  induction k with
  | zero =>
    refine ⟨⟨s, .start s⟩, fun t h => ?_⟩
    cases h
    exact start
  | succ k ih =>
    obtain ⟨⟨t, before⟩, all⟩ := ih (by omega)
    constructor
    · obtain ⟨u, hu, -⟩ := (all t before).turn size body distinct mask inSrc inDst hk
      exact ⟨u, .turn before hu ⟨rfl, rfl, rfl, rfl, rfl, rfl⟩⟩
    · intro v h
      cases h with
      | turn before now between =>
        rename_i t u
        obtain ⟨u', hu, after⟩ := (all t before).turn size body distinct mask inSrc inDst hk
        obtain rfl : u = u' := Option.some.inj (now.symm.trans hu)
        have hy : u.cpu.y = s.cpu.y := by simp only [Cpu.y, after.ir]
        have hx : u.cpu.x = s.cpu.x := by simp only [Cpu.x, after.ir]
        have src := between.src
        have dst := between.dst
        rw [hy] at src
        rw [hx] at dst
        exact ⟨src.trans after.src, dst.trans after.dst,
          between.addressMask.trans after.addressMask, between.ir.trans after.ir,
          by rw [between.ram, between.flags, after.blocks]⟩

end Loop

/-! ### An idle machine -/

/-- A core beside a machine that has not run. -/
def Core.idle (c : Cpu) : Core ramSize :=
  ⟨{ c with addressMask := 0x00ffffff }, Machine.initial ramSize, []⟩

theorem ram_initial (i : Nat) : (Machine.initial n).ram i = 0 := by
  rw [Machine.ram, Machine.initial]
  by_cases h : i < n
  · rw [CArray.load_of_lt _ h]
    rfl
  · rw [CArray.load, dif_neg h]
    rfl

/-- A core beside a machine with these bytes at the start of its RAM. -/
def Core.loaded (c : Cpu) (bytes : List UInt8) : Core ramSize :=
  { Core.idle c with
    machine := { Machine.initial ramSize with mainRam := (CArray.fill 0).ofBytes bytes } }

theorem ram_loaded (c : Cpu) (bytes : List UInt8) {i : Nat} (hi : i < ramSize) :
    (Core.loaded c bytes).machine.ram i = bytes.getD i 0 := by
  rw [Machine.ram, Core.loaded, CArray.load_of_lt _ hi]
  rfl

end Kyacopycat
