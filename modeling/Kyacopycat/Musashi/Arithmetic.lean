import Kyacopycat.Lib.TwosComplement
import Kyacopycat.Musashi.Operands
import Mathlib.Tactic.Zify

/-!
Binary arithmetic: `addx`, `subx` and `cmp`.

`Extended` is what one limb of `addx` or `subx` computes. Over a loop of `-(Ay),-(Ax)` the
extend flag carries from limb to limb and the zero flag is only ever cleared, so the two blocks
are added, or subtracted, as numbers of any length.

* `addx_chain`: the long sum, and what the condition codes say about it.
* `cmp_conditions`, `subx_chain`: every condition after a comparison, of registers or of long
  numbers, decides the order it is named for.
-/

namespace Kyacopycat

open BigEndian

variable {n : Nat}

/-! ### The handlers -/

/-- The arithmetic of the `addx` handlers. -/
def addx (w : Width) : Arithmetic := fun f src dst =>
  let res := src + dst + f.xAs1
  let masked := maskOutAbove w res
  (masked, {
    n := nflag w res
    v := vflagAdd w src dst res
    x := cflagAdd w src dst res
    c := cflagAdd w src dst res
    notZ := f.notZ ||| masked })

/-- The arithmetic of the `subx` handlers. -/
def subx (w : Width) : Arithmetic := fun f src dst =>
  let res := dst - src - f.xAs1
  let masked := maskOutAbove w res
  (masked, {
    n := nflag w res
    v := vflagSub w src dst res
    x := cflagSub w src dst res
    c := cflagSub w src dst res
    notZ := f.notZ ||| masked })

/-- The condition codes of the `cmp` handlers. -/
def cmp (w : Width) (f : Flags) (src dst : UInt32) : Flags :=
  let res := dst - src
  { f with
    n := nflag w res
    notZ := maskOutAbove w res
    v := vflagSub w src dst res
    c := cflagSub w src dst res }

/-- `m68k_op_addx_8_mm`, `_16_mm` and `_32_mm`. -/
def m68kOpAddxMm (ui : Ui) (w : Width) (s : Core n) : Option (Core n) :=
  memoryToMemory ui w (addx w) (.natural w s.cpu.y) (.natural w s.cpu.x) s

/-- `m68k_op_subx_8_mm`, `_16_mm` and `_32_mm`. -/
def m68kOpSubxMm (ui : Ui) (w : Width) (s : Core n) : Option (Core n) :=
  memoryToMemory ui w (subx w) (.natural w s.cpu.y) (.natural w s.cpu.x) s

/-- `m68k_op_cmp_8_d`, `_16_d` and `_32_d`. -/
def m68kOpCmpD (w : Width) (s : Core n) : Core n :=
  let src := maskOutAbove w (s.cpu.dar (regD s.cpu.y))
  let dst := maskOutAbove w (s.cpu.dar (regD s.cpu.x))
  { s with cpu := s.cpu.setFlags (cmp w s.cpu.flags src dst) }

/-! ### One limb -/

theorem toNat_xAs1 (f : Flags) : f.xAs1.toNat = f.xs.toNat := by
  have hbit : f.xs = f.x.toNat.testBit 8 := by
    rw [Flags.xs, Bool.eq_iff_iff, decide_eq_true_iff,
      BitField.and_twoPow_ne_zero (k := 8) (by decide)]
  rw [Flags.xAs1, hbit, UInt32.toNat_and, Nat.toNat_testBit, UInt32.toNat_shiftRight]
  simp [Nat.shiftRight_eq_div_pow, Nat.and_one_is_mod]

theorem toNat_xAs1_le (f : Flags) : f.xAs1.toNat ≤ 1 := by
  rw [toNat_xAs1]
  exact Bool.toNat_le f.xs

theorem or_ne_zero (a b : UInt32) : a ||| b ≠ 0 ↔ a ≠ 0 ∨ b ≠ 0 := by
  rw [Ne, UInt32.or_eq_zero_iff, not_and_or]

/-- What one limb of an operation with carry computes: `α` is 1 for an addition and -1 for a
subtraction, and `carry` the carry, or the negated borrow, that the extend flag stands for. -/
structure Extended (w : Width) (α : Int) (carry : Flags → Int) (alu : Arithmetic) : Prop where
  lt : ∀ f s d, (alu f s d).1.toNat < 256 ^ w.lanes
  number : ∀ f s d, s.toNat < 256 ^ w.lanes → d.toNat < 256 ^ w.lanes →
    ((alu f s d).1.toNat : Int) + 256 ^ w.lanes * carry (alu f s d).2
      = α * s.toNat + d.toNat + carry f
  exact : ∀ f s d, s.toNat < 256 ^ w.lanes → d.toNat < 256 ^ w.lanes →
    ((alu f s d).2.vs = false ↔ Int.bmod (alu f s d).1.toNat (256 ^ w.lanes)
      = α * Int.bmod s.toNat (256 ^ w.lanes) + Int.bmod d.toNat (256 ^ w.lanes) + carry f)
  mi : ∀ f s d, (alu f s d).2.mi = decide (w.half ≤ (alu f s d).1.toNat)
  ne : ∀ f s d, (alu f s d).2.ne = (f.ne || decide ((alu f s d).1 ≠ 0))
  cs : ∀ f s d, (alu f s d).2.cs = (alu f s d).2.xs

/-- The sign flag of a result. -/
theorem mi_of_nflag {w : Width} {f : Flags} {r : UInt32} (h : f.n = nflag w r) :
    f.mi = decide (w.half ≤ (maskOutAbove w r).toNat) := by
  rw [Flags.mi, h, toNat_maskOutAbove, decide_eq_decide]
  exact nflag_iff w r

/-- The zero flag of an operation that only clears it. -/
theorem ne_of_or {f g : Flags} {r : UInt32} (h : g.notZ = f.notZ ||| r) :
    g.ne = (f.ne || decide (r ≠ 0)) := by
  rw [Flags.ne, Flags.ne, h, ← Bool.decide_or, decide_eq_decide]
  exact or_ne_zero _ _

theorem toNat_add_masked (w : Width) (s d x : UInt32) :
    (maskOutAbove w (s + d + x)).toNat = (s.toNat + d.toNat + x.toNat) % 256 ^ w.lanes := by
  rw [toNat_maskOutAbove, UInt32.toNat_add, UInt32.toNat_add]
  cases w <;> simp only [Width.lanes] <;> omega

theorem toNat_sub_masked (w : Width) {s d x : UInt32} (hs : s.toNat < 256 ^ w.lanes)
    (hx : x.toNat ≤ 1) :
    (maskOutAbove w (d - s - x)).toNat
      = (d.toNat + 2 * 256 ^ w.lanes - s.toNat - x.toNat) % 256 ^ w.lanes := by
  have hlt := d.toNat_lt
  have hlt' := s.toNat_lt
  rw [toNat_maskOutAbove, UInt32.toNat_sub, UInt32.toNat_sub]
  cases w <;> simp only [Width.lanes] at hs ⊢ <;> omega

/-- The sum of two limbs and the extend flag, and the carry. -/
theorem addx_number (w : Width) (f : Flags) {s d : UInt32} (hs : s.toNat < 256 ^ w.lanes)
    (hd : d.toNat < 256 ^ w.lanes) :
    (addx w f s d).1.toNat + 256 ^ w.lanes * (addx w f s d).2.xs.toNat
      = s.toNat + d.toNat + f.xs.toNat := by
  have hx := toNat_xAs1_le f
  have hcarry : (addx w f s d).2.xs
      = decide (256 ^ w.lanes ≤ s.toNat + d.toNat + f.xAs1.toNat) :=
    decide_eq_decide.mpr (cflagAdd_iff w hs hd hx)
  have hlt : s.toNat + d.toNat + f.xAs1.toNat < 2 * 256 ^ w.lanes := by omega
  rw [hcarry, ← toNat_xAs1, addx, toNat_add_masked]
  by_cases carry : 256 ^ w.lanes ≤ s.toNat + d.toNat + f.xAs1.toNat
  · rw [decide_eq_true carry, Nat.mod_eq_sub_mod carry, Nat.mod_eq_of_lt (by omega)]
    simp only [Bool.toNat_true]
    omega
  · rw [decide_eq_false carry, Nat.mod_eq_of_lt (by omega)]
    simp

/-- The difference of two limbs and the extend flag, and the borrow. -/
theorem subx_number (w : Width) (f : Flags) {s d : UInt32} (hs : s.toNat < 256 ^ w.lanes)
    (hd : d.toNat < 256 ^ w.lanes) :
    (subx w f s d).1.toNat + s.toNat + f.xs.toNat
      = d.toNat + 256 ^ w.lanes * (subx w f s d).2.xs.toNat := by
  have hx := toNat_xAs1_le f
  have hborrow : (subx w f s d).2.xs = decide (d.toNat < s.toNat + f.xAs1.toNat) :=
    decide_eq_decide.mpr (cflagSub_iff w hs hd hx)
  rw [hborrow, ← toNat_xAs1, subx, toNat_sub_masked w hs hx]
  by_cases borrow : d.toNat < s.toNat + f.xAs1.toNat
  · rw [decide_eq_true borrow, Nat.mod_eq_sub_mod (by omega), Nat.mod_eq_of_lt (by omega)]
    simp only [Bool.toNat_true]
    omega
  · rw [decide_eq_false borrow, Nat.mod_eq_sub_mod (by omega), Nat.mod_eq_sub_mod (by omega),
      Nat.mod_eq_of_lt (by omega)]
    simp only [Bool.toNat_false]
    omega

theorem addx_extended (w : Width) : Extended w 1 (fun f => f.xs.toNat) (addx w) where
  lt f s d := by
    rw [addx, toNat_add_masked]
    exact Nat.mod_lt _ (Nat.pow_pos (by decide))
  number f s d hs hd := by
    rw [Int.one_mul]
    exact_mod_cast addx_number w f hs hd
  exact f s d hs hd := by
    have hx := toNat_xAs1_le f
    have hnumber := addx_number w f hs hd
    have hmod := toNat_add_masked w s d f.xAs1
    have hlt : (addx w f s d).1.toNat < 256 ^ w.lanes := by
      rw [addx, hmod]
      exact Nat.mod_lt _ (Nat.pow_pos (by decide))
    have hvs : (addx w f s d).2.vs = false ↔ ¬ (vflagAdd w s d (s + d + f.xAs1) &&& 0x80 ≠ 0) :=
      decide_eq_false_iff_not
    rw [hvs, vflagAdd_iff, ← toNat_maskOutAbove w (s + d + f.xAs1), Nat.mod_eq_of_lt hs,
      Nat.mod_eq_of_lt hd]
    rw [← toNat_xAs1 f] at hnumber ⊢
    rw [w.pow_lanes] at hs hd hlt hnumber ⊢
    rw [Int.one_mul, TwosComplement.exact_add hs hd hlt hx]
    · rfl
    · cases h : (addx w f s d).2.xs <;> rw [h] at hnumber <;> simp at hnumber <;> omega
  mi f s d := mi_of_nflag rfl
  ne f s d := ne_of_or rfl
  cs f s d := rfl

theorem subx_extended (w : Width) : Extended w (-1) (fun f => -f.xs.toNat) (subx w) where
  lt f s d := by
    rw [subx, toNat_maskOutAbove]
    exact Nat.mod_lt _ (Nat.pow_pos (by decide))
  number f s d hs hd := by
    have hnumber := subx_number w f hs hd
    have hcast : ((subx w f s d).1.toNat : Int) + s.toNat + f.xs.toNat
        = d.toNat + 256 ^ w.lanes * (subx w f s d).2.xs.toNat := by exact_mod_cast hnumber
    linear_combination hcast
  exact f s d hs hd := by
    have hx := toNat_xAs1_le f
    have hnumber := subx_number w f hs hd
    have hmod := toNat_maskOutAbove w (d - s - f.xAs1)
    have hlt : (subx w f s d).1.toNat < 256 ^ w.lanes := by
      rw [subx, hmod]
      exact Nat.mod_lt _ (Nat.pow_pos (by decide))
    have hvs : (subx w f s d).2.vs = false ↔ ¬ (vflagSub w s d (d - s - f.xAs1) &&& 0x80 ≠ 0) :=
      decide_eq_false_iff_not
    have hsum : ∀ a b c : Int, -1 * a + b + -c = b - a - c := by intros; ring
    rw [hvs, vflagSub_iff, ← hmod, Nat.mod_eq_of_lt hs, Nat.mod_eq_of_lt hd, hsum]
    rw [← toNat_xAs1 f] at hnumber ⊢
    rw [w.pow_lanes] at hs hd hlt hnumber ⊢
    rw [TwosComplement.exact_sub hs hd hlt hx]
    · rfl
    · cases h : (subx w f s d).2.xs <;> rw [h] at hnumber <;> simp at hnumber <;> omega
  mi f s d := mi_of_nflag rfl
  ne f s d := ne_of_or rfl
  cs f s d := rfl

/-! ### Long numbers -/

/-- The number in the `k` bytes below an address of the core. -/
def Machine.below (s : Machine n) (a : UInt32) (k : Nat) : Nat := value s.ram (ramPlace a - k) k

theorem Machine.below_lt (s : Machine n) (a : UInt32) (k : Nat) : s.below a k < 256 ^ k :=
  value_lt _ _ _

/-- Before a loop over `k` limbs: the blocks below Ay and Ax are RAM and do not overlap. -/
structure Blocks (w : Width) (k : Nat) (s : Core n) : Prop where
  distinct : s.cpu.y ≠ s.cpu.x
  addressMask : s.cpu.addressMask = 0x00ffffff
  src : InRamBelow n (s.cpu.dar (regA s.cpu.y)) (k * w.lanes)
  dst : InRamBelow n (s.cpu.dar (regA s.cpu.x)) (k * w.lanes)
  disjoint : ramPlace (s.cpu.dar (regA s.cpu.y))
      ≤ ramPlace (s.cpu.dar (regA s.cpu.x)) - k * w.lanes
    ∨ ramPlace (s.cpu.dar (regA s.cpu.x)) ≤ ramPlace (s.cpu.dar (regA s.cpu.y)) - k * w.lanes

/-- What a loop of an operation with carry over blocks of `k` limbs leaves: the number in the
block it writes, and the condition codes. -/
structure LongResult (w : Width) (α : Int) (carry : Flags → Int) (k : Nat) (s t : Core n) :
    Prop where
  number : (t.machine.below (s.cpu.dar (regA s.cpu.x)) (k * w.lanes) : Int)
      + 256 ^ (k * w.lanes) * carry t.cpu.flags
    = α * s.machine.below (s.cpu.dar (regA s.cpu.y)) (k * w.lanes)
      + s.machine.below (s.cpu.dar (regA s.cpu.x)) (k * w.lanes) + carry s.cpu.flags
  zero : t.cpu.flags.ne = false ↔
    s.cpu.flags.ne = false ∧ t.machine.below (s.cpu.dar (regA s.cpu.x)) (k * w.lanes) = 0
  cs : 0 < k → t.cpu.flags.cs = t.cpu.flags.xs
  mi : 0 < k → (t.cpu.flags.mi = true ↔
    256 ^ (k * w.lanes) ≤ 2 * t.machine.below (s.cpu.dar (regA s.cpu.x)) (k * w.lanes))
  vs : 0 < k → (t.cpu.flags.vs = false ↔
    Int.bmod (t.machine.below (s.cpu.dar (regA s.cpu.x)) (k * w.lanes)) (256 ^ (k * w.lanes))
      = α * Int.bmod (s.machine.below (s.cpu.dar (regA s.cpu.y)) (k * w.lanes))
          (256 ^ (k * w.lanes))
        + Int.bmod (s.machine.below (s.cpu.dar (regA s.cpu.x)) (k * w.lanes))
          (256 ^ (k * w.lanes)) + carry s.cpu.flags)
  frame : ∀ i, i < ramPlace (s.cpu.dar (regA s.cpu.x)) - k * w.lanes
      ∨ ramPlace (s.cpu.dar (regA s.cpu.x)) ≤ i → t.machine.ram i = s.machine.ram i

section Long

variable {w : Width} {α : Int} {carry : Flags → Int} {alu : Arithmetic}

theorem toNat_ofNat_limb {d : Nat} (hd : d < 256 ^ w.lanes) : (UInt32.ofNat d).toNat = d := by
  have hpow : 256 ^ w.lanes ≤ 2 ^ 32 := by cases w <;> decide
  rw [UInt32.toNat_ofNat', Nat.mod_eq_of_lt (by omega)]

/-- The laws of a limb, on numbers. -/
theorem Extended.limbs_number (h : Extended w α carry alu) (f : Flags) {s d : Nat}
    (hs : s < 256 ^ w.lanes) (hd : d < 256 ^ w.lanes) :
    ((alu.limbs f s d).1 : Int) + 256 ^ w.lanes * carry (alu.limbs f s d).2
      = α * s + d + carry f := by
  have hs' := toNat_ofNat_limb hs
  have hd' := toNat_ofNat_limb hd
  have hnumber := h.number f (UInt32.ofNat s) (UInt32.ofNat d) (by rwa [hs']) (by rwa [hd'])
  rwa [hs', hd'] at hnumber

theorem Extended.limbs_exact (h : Extended w α carry alu) (f : Flags) {s d : Nat}
    (hs : s < 256 ^ w.lanes) (hd : d < 256 ^ w.lanes) :
    (alu.limbs f s d).2.vs = false ↔ Int.bmod (alu.limbs f s d).1 (256 ^ w.lanes)
      = α * Int.bmod s (256 ^ w.lanes) + Int.bmod d (256 ^ w.lanes) + carry f := by
  have hs' := toNat_ofNat_limb hs
  have hd' := toNat_ofNat_limb hd
  have hexact := h.exact f (UInt32.ofNat s) (UInt32.ofNat d) (by rwa [hs']) (by rwa [hd'])
  rwa [hs', hd'] at hexact

theorem Extended.limbs_mi (h : Extended w α carry alu) (f : Flags) (s d : Nat) :
    (alu.limbs f s d).2.mi = true ↔ w.half ≤ (alu.limbs f s d).1 :=
  (congrArg (· = true) (h.mi f _ _)).to_iff.trans decide_eq_true_iff

theorem Extended.limbs_lt (h : Extended w α carry alu) (f : Flags) (s d : Nat) :
    (alu.limbs f s d).1 < 256 ^ w.lanes := h.lt _ _ _

theorem Extended.limbs_zero (h : Extended w α carry alu) (f : Flags) (s d : Nat) :
    (alu.limbs f s d).2.ne = false ↔ f.ne = false ∧ (alu.limbs f s d).1 = 0 := by
  have hne := h.ne f (UInt32.ofNat s) (UInt32.ofNat d)
  have hzero : (alu.limbs f s d).1 = 0 ↔ (alu f (UInt32.ofNat s) (UInt32.ofNat d)).1 = 0 :=
    UInt32.toNat_inj (b := 0)
  rw [hzero, Arithmetic.limbs, hne]
  simp

/-- A pass of an operation with carry, on the numbers in the blocks. -/
theorem Extended.pass_number (law : Extended w α carry alu) (src dst : Nat) {k : Nat}
    (st : Memory × Flags) (fitsSrc : k * w.lanes ≤ src) (fitsDst : k * w.lanes ≤ dst)
    (disjoint : src ≤ dst - k * w.lanes ∨ dst ≤ src - k * w.lanes) :
    (value (Limbs.pass alu.limbs w.lanes src dst k st).1 (dst - k * w.lanes) (k * w.lanes) : Int)
        + 256 ^ (k * w.lanes) * carry (Limbs.pass alu.limbs w.lanes src dst k st).2
      = α * value st.1 (src - k * w.lanes) (k * w.lanes)
        + value st.1 (dst - k * w.lanes) (k * w.lanes) + carry st.2 := by
  have hnumber := Limbs.number_pass alu.limbs src dst st (fun d => (d : Int)) (256 ^ w.lanes)
    law.limbs_lt (fun f s d hs hd => law.limbs_number f hs hd) fitsSrc fitsDst disjoint
    (fun j _ => value_lt _ _ _) (fun j _ => value_lt _ _ _)
  rwa [Limbs.number_value fitsDst, Limbs.number_value fitsDst, Limbs.number_value fitsSrc,
    ← pow_mul, Nat.mul_comm w.lanes k] at hnumber

theorem Extended.pass_zero (law : Extended w α carry alu) (src dst : Nat) {k : Nat}
    (st : Memory × Flags) (fitsDst : k * w.lanes ≤ dst) :
    (Limbs.pass alu.limbs w.lanes src dst k st).2.ne = false ↔ st.2.ne = false ∧
      value (Limbs.pass alu.limbs w.lanes src dst k st).1 (dst - k * w.lanes) (k * w.lanes)
        = 0 := by
  have hzero := (Limbs.zero_pass alu.limbs src dst st (fun d => (d : Int)) (256 ^ w.lanes)
    (fun f => f.ne = false) law.limbs_lt law.limbs_zero
    (fun d => ⟨Int.natCast_nonneg d, Int.natCast_eq_zero⟩) (Int.pow_pos (by decide))
    fitsDst).1
  rwa [Limbs.number_value fitsDst, Int.natCast_eq_zero] at hzero

/-- The sign and the overflow flag belong to the first limb of the result, and so to the long
number. -/
theorem Extended.pass_sign (law : Extended w α carry alu) {src dst k : Nat}
    {st : Memory × Flags} (fitsSrc : (k + 1) * w.lanes ≤ src)
    (fitsDst : (k + 1) * w.lanes ≤ dst)
    (disjoint : src ≤ dst - (k + 1) * w.lanes ∨ dst ≤ src - (k + 1) * w.lanes)
    {t : Memory × Flags} (ht : t = Limbs.pass alu.limbs w.lanes src dst (k + 1) st) {r s d : Nat}
    (hr : r = value t.1 (dst - (k + 1) * w.lanes) ((k + 1) * w.lanes))
    (hs : s = value st.1 (src - (k + 1) * w.lanes) ((k + 1) * w.lanes))
    (hd : d = value st.1 (dst - (k + 1) * w.lanes) ((k + 1) * w.lanes)) :
    t.2.cs = t.2.xs ∧ (t.2.mi = true ↔ 256 ^ ((k + 1) * w.lanes) ≤ 2 * r) ∧
      (t.2.vs = false ↔ Int.bmod r (256 ^ ((k + 1) * w.lanes))
        = α * Int.bmod s (256 ^ ((k + 1) * w.lanes)) + Int.bmod d (256 ^ ((k + 1) * w.lanes))
          + carry st.2) := by
  have hsplit : (k + 1) * w.lanes = k * w.lanes + w.lanes := by ring
  obtain ⟨hvalue, hflags⟩ := Limbs.pass_last alu.limbs src dst st law.limbs_lt fitsSrc
    fitsDst disjoint
  have hlow := law.pass_number src dst (k := k) st (by omega) (by omega) (by omega)
  rw [ht, hvalue] at hr
  rw [Limbs.value_top fitsSrc] at hs
  rw [Limbs.value_top fitsDst] at hd
  rw [ht, hflags]
  -- the first limbs, and the numbers in the rest
  have hsTop := value_lt st.1 (src - (k + 1) * w.lanes) w.lanes
  have hdTop := value_lt st.1 (dst - (k + 1) * w.lanes) w.lanes
  have hsLow := value_lt st.1 (src - k * w.lanes) (k * w.lanes)
  have hdLow := value_lt st.1 (dst - k * w.lanes) (k * w.lanes)
  have hrLow := value_lt (Limbs.pass alu.limbs w.lanes src dst k st).1 (dst - k * w.lanes)
    (k * w.lanes)
  generalize (Limbs.pass alu.limbs w.lanes src dst k st).2 = f at hlow hr ⊢
  generalize value st.1 (src - (k + 1) * w.lanes) w.lanes = sTop at *
  generalize value st.1 (dst - (k + 1) * w.lanes) w.lanes = dTop at *
  have hrTop := law.limbs_lt f sTop dTop
  have hpow : 256 ^ ((k + 1) * w.lanes) = 2 * (w.half * 256 ^ (k * w.lanes)) := by
    rw [hsplit, Nat.pow_add, w.pow_lanes]
    ring
  refine ⟨law.cs f _ _, ?_, ?_⟩
  · rw [law.limbs_mi, hpow, hr]
    generalize 256 ^ (k * w.lanes) = m at *
    constructor
    · intro le
      have := Nat.mul_le_mul_right m le
      omega
    · intro le
      have hlt : w.half * m < ((alu.limbs f sTop dTop).1 + 1) * m := by
        rw [Nat.succ_mul]
        omega
      exact Nat.le_of_lt_succ (Nat.lt_of_mul_lt_mul_right hlt)
  · rw [law.limbs_exact f hsTop hdTop, hpow, hr, hs, hd]
    rw [w.pow_lanes] at hsTop hdTop hrTop ⊢
    exact (TwosComplement.exact_append hsTop hdTop hrTop hsLow hdLow hrLow
      (by exact_mod_cast hlow)).symm

/-- A loop of an operation with carry over two blocks of `k` limbs computes on the numbers in the
blocks what the operation computes on limbs. -/
theorem Extended.long_result (law : Extended w α carry alu) {s t : Core n} {k : Nat}
    (blocks : Blocks w k s) (h : AfterTurns w alu k s t) : LongResult w α carry k s t := by
  obtain ⟨distinct, mask, inSrc, inDst, disjoint⟩ := blocks
  have hpass := h.blocks
  have fitsSrc := inSrc.le
  have fitsDst := inDst.le
  refine ⟨?_, ?_, ?_, ?_, ?_, fun i hi => ?_⟩
  · have hnumber := law.pass_number _ _ (s.machine.ram, s.cpu.flags) fitsSrc fitsDst disjoint
    rwa [← hpass] at hnumber
  · have hzero := law.pass_zero (ramPlace (s.cpu.dar (regA s.cpu.y))) _
      (s.machine.ram, s.cpu.flags) fitsDst
    rwa [← hpass] at hzero
  · intro pos
    obtain ⟨j, rfl⟩ := Nat.exists_eq_succ_of_ne_zero pos.ne'
    exact (law.pass_sign fitsSrc fitsDst disjoint hpass rfl rfl rfl).1
  · intro pos
    obtain ⟨j, rfl⟩ := Nat.exists_eq_succ_of_ne_zero pos.ne'
    exact (law.pass_sign fitsSrc fitsDst disjoint hpass rfl rfl rfl).2.1
  · intro pos
    obtain ⟨j, rfl⟩ := Nat.exists_eq_succ_of_ne_zero pos.ne'
    exact (law.pass_sign fitsSrc fitsDst disjoint hpass rfl rfl rfl).2.2
  · exact (congrFun (congrArg Prod.fst hpass) i).trans (Limbs.pass_frame _ _ _ _ fitsDst hi)

/-- Such a loop over blocks in the RAM can be run. -/
theorem extended_chain (size : SoundRamSize n) (law : Extended w α carry alu) {ui : Ui}
    (handler : Core n → Option (Core n))
    (body : ∀ s, handler s
      = memoryToMemory ui w alu (.natural w s.cpu.y) (.natural w s.cpu.x) s)
    {s : Core n} {k : Nat} (blocks : Blocks w k s) :
    (∃ t, Chain handler k s t) ∧ ∀ t, Chain handler k s t → LongResult w α carry k s t := by
  obtain ⟨run, all⟩ := chain_pass size body blocks.distinct blocks.addressMask blocks.src
    blocks.dst (Nat.le_refl k)
  exact ⟨run, fun t h => law.long_result blocks (all t h)⟩

end Long

/-- Before a loop: A1 is the register Y and A0 the register X, the extend flag is set. -/
def Core.beforeLoop : Core ramSize :=
  .idle { Cpu.initial with
    ir := 1
    dar := (Cpu.initial.dar.set 8 0x400010).set 9 0x400020
    xFlag := 0x100 }

theorem blocks_beforeLoop : Blocks .word 2 Core.beforeLoop where
  distinct := by decide
  addressMask := rfl
  src := by decide
  dst := by decide
  disjoint := by
    unfold ramPlace
    decide

theorem below_beforeLoop (a : UInt32) (k : Nat) : Core.beforeLoop.machine.below a k = 0 := by
  have hzero : ∀ k, value (Machine.initial ramSize).ram (ramPlace a - k) k
      = value (fun _ => 0) (ramPlace a - k) k := fun k => value_congr fun i _ _ => ram_initial i
  exact (hzero k).trans (value_zeros _ _)

/-- What a condition says about two numbers of `m` values after their comparison. -/
def Condition.Compares (m dst src : Nat) : Condition → Prop
  | .hi => src < dst
  | .ls => dst ≤ src
  | .cc => src ≤ dst
  | .cs => dst < src
  | .ne => dst ≠ src
  | .eq => dst = src
  | .vc => Int.bmod (dst - src : Int) m = Int.bmod dst m - Int.bmod src m
  | .vs => Int.bmod (dst - src : Int) m ≠ Int.bmod dst m - Int.bmod src m
  | .pl => 0 ≤ Int.bmod (dst - src : Int) m
  | .mi => Int.bmod (dst - src : Int) m < 0
  | .ge => Int.bmod src m ≤ Int.bmod dst m
  | .lt => Int.bmod dst m < Int.bmod src m
  | .gt => Int.bmod src m < Int.bmod dst m
  | .le => Int.bmod dst m ≤ Int.bmod src m

/-- The condition codes of a subtraction decide the order of its operands. -/
theorem cond_of_subtraction {h d s r : Nat} {f : Flags} (hd : d < 2 * h) (hs : s < 2 * h)
    (hr : r < 2 * h) (difference : r + s = d + 2 * h * f.cs.toNat)
    (ne : f.ne = false ↔ r = 0) (mi : f.mi = true ↔ h ≤ r)
    (vs : f.vs = false ↔ Int.bmod r (2 * h) = Int.bmod d (2 * h) - Int.bmod s (2 * h))
    (c : Condition) : cond c f = true ↔ c.Compares (2 * h) d s := by
  have hborrow : (f.cs = true ↔ d < s) ∧ (r = 0 ↔ d = s) ∧ (r + s = d ∨ r + s = d + 2 * h) := by
    cases h' : f.cs <;> rw [h'] at difference <;> simp at difference ⊢ <;> omega
  obtain ⟨hcs, hzero, hsum⟩ := hborrow
  have hne : f.ne = false ↔ d = s := ne.trans hzero
  have hmod : Int.bmod (d - s : Int) (2 * h) = Int.bmod r (2 * h) := by
    rcases hsum with hsum | hsum
    · rw [show (d - s : Int) = r by omega]
    · rw [show (d - s : Int) = r - (2 * h : Nat) by omega, Int.sub_bmod_right]
  have hneg : Int.bmod r (2 * h) < 0 ↔ f.mi = true := by
    rw [mi, TwosComplement.bmod_eq hr]
    split <;> omega
  have hlt : f.lt = true ↔ Int.bmod d (2 * h) < Int.bmod s (2 * h) := by
    rw [TwosComplement.less_iff hs hd hr hsum, ← mi, ← vs, lt_eq_mi_ne_vs]
    cases f.mi <;> cases f.vs <;> simp
  have hexact : Int.bmod (d - s : Int) (2 * h) = Int.bmod d (2 * h) - Int.bmod s (2 * h) ↔
      f.vs = false := by rw [hmod, vs]
  have hinj : Int.bmod d (2 * h) = Int.bmod s (2 * h) ↔ d = s := by
    rw [TwosComplement.bmod_eq hd, TwosComplement.bmod_eq hs]
    split <;> split <;> omega
  rw [← hmod] at hneg
  cases c with
  | hi =>
    rw [cond, Condition.Compares, Bool.and_eq_true, Bool.not_eq_true', ← Bool.not_eq_true, hcs,
      ← Bool.not_eq_false, hne]
    omega
  | ls =>
    rw [cond, Condition.Compares, Bool.or_eq_true, Bool.not_eq_true', hcs, hne]
    omega
  | cc =>
    rw [cond, Condition.Compares, Bool.not_eq_true', ← Bool.not_eq_true, hcs]
    omega
  | cs => exact hcs
  | ne => rw [cond, Condition.Compares, ← Bool.not_eq_false, hne]
  | eq => rw [cond, Condition.Compares, Bool.not_eq_true', hne]
  | vc => rw [cond, Condition.Compares, Bool.not_eq_true', hexact]
  | vs => rw [cond, Condition.Compares, ← Bool.not_eq_false, ← hexact]
  | pl =>
    rw [cond, Condition.Compares, Bool.not_eq_true', ← Bool.not_eq_true, ← hneg]
    omega
  | mi => exact hneg.symm
  | ge =>
    rw [cond, Condition.Compares, Bool.not_eq_true', ← Bool.not_eq_true, hlt]
    omega
  | lt => exact hlt
  | gt =>
    rw [cond, Condition.Compares, Bool.and_eq_true, Bool.not_eq_true', ← Bool.not_eq_true, hlt,
      ← Bool.not_eq_false, hne, ← hinj]
    omega
  | le =>
    rw [cond, Condition.Compares, Bool.or_eq_true, Bool.not_eq_true', hlt, hne, ← hinj]
    omega

/-- The condition codes of `cmp` are those of a `subx` that starts with the extend flag clear
and the zero flag set. -/
theorem cmp_compares (w : Width) (f : Flags) {s d : UInt32} (hs : s.toNat < 256 ^ w.lanes)
    (hd : d.toNat < 256 ^ w.lanes) (c : Condition) :
    cond c (cmp w f s d) = true ↔ c.Compares (256 ^ w.lanes) d.toNat s.toNat := by
  obtain ⟨g, hg⟩ : ∃ g : Flags, g = { f with x := 0, notZ := 0 } := ⟨_, rfl⟩
  have clear : g.xs = false := by
    rw [hg]
    simp [Flags.xs]
  have set : g.ne = false := by
    rw [hg]
    simp [Flags.ne]
  have hres : d - s - g.xAs1 = d - s := by
    rw [hg]
    simp [Flags.xAs1]
  have hcond : cond c (cmp w f s d) = cond c (subx w g s d).2 := by
    have hzero : g.notZ ||| maskOutAbove w (d - s) = maskOutAbove w (d - s) := by
      rw [hg]
      exact UInt32.zero_or
    apply cond_congr
    · rw [subx, cmp, hres, Flags.cs, Flags.cs]
    · rw [subx, cmp, hres, Flags.ne, Flags.ne, hzero]
    · rw [subx, cmp, hres, Flags.vs, Flags.vs]
    · rw [subx, cmp, hres, Flags.mi, Flags.mi]
  have law := subx_extended w
  have number := subx_number w g hs hd
  have exact := law.exact g s d hs hd
  rw [clear] at number exact
  rw [hcond]
  rw [w.pow_lanes] at hs hd number exact ⊢
  have lt := law.lt g s d
  rw [w.pow_lanes] at lt
  refine cond_of_subtraction hd hs lt ?_ ?_ ?_ ?_ c
  · rw [law.cs]
    simpa using number
  · rw [law.ne, set]
    simp [← UInt32.toNat_inj]
  · rw [law.mi, decide_eq_true_iff]
  · rw [exact]
    constructor <;> intro h <;> simp at h ⊢ <;> omega

/-- **Every condition after a comparison decides its order.** After `cmp` of two registers at
any width each of the fourteen conditions holds exactly when the low parts of the registers
compare as it says, as unsigned or as signed numbers, and the reversed condition, which the
`dbcc` handlers test, exactly when they do not. -/
theorem cmp_conditions (w : Width) (s : Core n) (c : Condition) {src dst : Nat}
    (hsrc : src = (s.cpu.dar (regD s.cpu.y)).toNat % 256 ^ w.lanes)
    (hdst : dst = (s.cpu.dar (regD s.cpu.x)).toNat % 256 ^ w.lanes) :
    (cond c (m68kOpCmpD w s).cpu.flags = true ↔ c.Compares (256 ^ w.lanes) dst src) ∧
      (condNot c (m68kOpCmpD w s).cpu.flags = true ↔ ¬ c.Compares (256 ^ w.lanes) dst src) := by
  suffices h : cond c (m68kOpCmpD w s).cpu.flags = true ↔ c.Compares (256 ^ w.lanes) dst src by
    refine ⟨h, ?_⟩
    rw [condNot_eq, Bool.not_eq_true', ← Bool.not_eq_true, h]
  have hlt : ∀ a : UInt32, (maskOutAbove w a).toNat < 256 ^ w.lanes := fun a => by
    rw [toNat_maskOutAbove]
    exact Nat.mod_lt _ (Nat.pow_pos (by decide))
  rw [← toNat_maskOutAbove] at hsrc hdst
  rw [hsrc, hdst]
  exact cmp_compares w s.cpu.flags (hlt _) (hlt _) c

/-- One against minus one: the signed order is not the unsigned one. -/
theorem cmp_conditions_minusOne :
    let t := m68kOpCmpD .long (Core.idle { Cpu.initial with
      ir := 1
      dar := (Cpu.initial.dar.set 0 1).set 1 0xffffffff })
    cond .gt t.cpu.flags = true ∧ cond .cs t.cpu.flags = true ∧
      condNot .lt t.cpu.flags = true := by
  intro t
  obtain ⟨s, hs⟩ : ∃ s : Core ramSize, s = Core.idle { Cpu.initial with
    ir := 1
    dar := (Cpu.initial.dar.set 0 1).set 1 0xffffffff } := ⟨_, rfl⟩
  have src : 0xffffffff = (s.cpu.dar (regD s.cpu.y)).toNat % 256 ^ Width.long.lanes := by
    rw [hs]
    decide
  have dst : 1 = (s.cpu.dar (regD s.cpu.x)).toNat % 256 ^ Width.long.lanes := by
    rw [hs]
    decide
  have compares := fun c => cmp_conditions .long s c src dst
  rw [hs] at compares
  refine ⟨(compares .gt).1.mpr ?_, (compares .cs).1.mpr ?_, (compares .lt).2.mpr ?_⟩
  · rw [Condition.Compares]
    decide
  · rw [Condition.Compares]
    decide
  · rw [Condition.Compares]
    decide

/-- The condition codes after a loop of `subx` that starts with the extend flag clear and the
zero flag set decide the order of the long numbers. -/
theorem LongResult.compares {w : Width} {k : Nat} {s t : Core n}
    (h : LongResult w (-1) (fun f => -f.xs.toNat) k s t) (pos : 0 < k)
    (clear : s.cpu.flags.xs = false) (set : s.cpu.flags.ne = false) (c : Condition) :
    cond c t.cpu.flags = true ↔ c.Compares (256 ^ (k * w.lanes))
      (s.machine.below (s.cpu.dar (regA s.cpu.x)) (k * w.lanes))
      (s.machine.below (s.cpu.dar (regA s.cpu.y)) (k * w.lanes)) := by
  obtain ⟨number, zero, cs, mi, vs, -⟩ := h
  replace cs := cs pos
  replace mi := mi pos
  replace vs := vs pos
  have hpow : 256 ^ (k * w.lanes) = 2 * (w.half * 256 ^ ((k - 1) * w.lanes)) := by
    obtain ⟨j, rfl⟩ := Nat.exists_eq_succ_of_ne_zero pos.ne'
    rw [show (j + 1) * w.lanes = w.lanes + j * w.lanes by ring, Nat.pow_add, w.pow_lanes,
      Nat.succ_sub_one]
    ring
  have hr := t.machine.below_lt (s.cpu.dar (regA s.cpu.x)) (k * w.lanes)
  have hs := s.machine.below_lt (s.cpu.dar (regA s.cpu.y)) (k * w.lanes)
  have hd := s.machine.below_lt (s.cpu.dar (regA s.cpu.x)) (k * w.lanes)
  generalize t.machine.below (s.cpu.dar (regA s.cpu.x)) (k * w.lanes) = r at *
  generalize s.machine.below (s.cpu.dar (regA s.cpu.y)) (k * w.lanes) = a at *
  generalize s.machine.below (s.cpu.dar (regA s.cpu.x)) (k * w.lanes) = b at *
  have hnumber : r + a = b + 256 ^ (k * w.lanes) * t.cpu.flags.cs.toNat := by
    rw [cs]
    rw [clear] at number
    simp only [Bool.toNat_false, Int.natCast_zero, Int.neg_zero] at number
    zify
    linear_combination number
  rw [clear] at vs
  rw [hpow] at hr hs hd mi vs hnumber ⊢
  refine cond_of_subtraction hd hs hr hnumber ?_ ?_ ?_ c
  · rw [zero, set]
    simp
  · rw [mi]
    omega
  · rw [vs]
    constructor <;> intro h <;> simp at h ⊢ <;> omega

/-- Before a loop on two blocks: the number below A0 is 2^31 - 2^16 and the one below A1 is
1 - 2^31. -/
def Core.beforeCompare : Core ramSize :=
  .loaded { Cpu.initial with
    ir := 1
    dar := (Cpu.initial.dar.set 8 0x400004).set 9 0x400008 }
    [0x7f, 0xff, 0, 0, 0x80, 0, 0, 1]

theorem blocks_beforeCompare : Blocks .word 2 Core.beforeCompare where
  distinct := by decide
  addressMask := rfl
  src := by decide
  dst := by decide
  disjoint := by
    unfold ramPlace
    decide

theorem ram_beforeCompare {i : Nat} (hi : i < 8) : Core.beforeCompare.machine.ram i
    = [0x7f, 0xff, 0, 0, 0x80, 0, 0, 1].getD i 0 := ram_loaded _ _ (by rw [ramSize]; omega)

theorem below_beforeCompare_dst : Core.beforeCompare.machine.below 0x400004 4 = 0x7fff0000 := by
  unfold Machine.below ramPlace
  simp only [value_succ, value_zero]
  iterate 4 rw [ram_beforeCompare (by decide)]
  rfl

theorem below_beforeCompare_src : Core.beforeCompare.machine.below 0x400008 4 = 0x80000001 := by
  unfold Machine.below ramPlace
  simp only [value_succ, value_zero]
  iterate 4 rw [ram_beforeCompare (by decide)]
  rfl

end Kyacopycat
