import Mathlib.Data.Nat.Bitwise

/-!
Bit masks as fields.

A mask test `x &&& m = c` of an address decoder looks at a few bit fields of `x`
and leaves the others free. `and_field` peels the topmost field off a mask, so
that the test becomes a statement about quotients and remainders of `x`, which
linear arithmetic decides. `toNat_or_shiftLeft` and `toNat_shiftRight_toUInt8` put a word
together from its fields and take a byte out of it.
-/

namespace BitField

/-- A conjunction splits at any bit position. -/
theorem and_split (x m k : Nat) :
    x &&& m = (x / 2 ^ k &&& m / 2 ^ k) * 2 ^ k + (x % 2 ^ k &&& m % 2 ^ k) := by
  rw [← Nat.and_div_two_pow, ← Nat.and_mod_two_pow, Nat.mul_comm, Nat.div_add_mod]

/-- The topmost field of a mask: `w` ones at position `k` above a rest `r`. -/
theorem and_field (x k w : Nat) {r : Nat} (hr : r < 2 ^ k) :
    x &&& ((2 ^ w - 1) * 2 ^ k + r) = x / 2 ^ k % 2 ^ w * 2 ^ k + (x &&& r) := by
  have hdiv : ((2 ^ w - 1) * 2 ^ k + r) / 2 ^ k = 2 ^ w - 1 := by
    rw [Nat.add_comm, Nat.add_mul_div_right _ _ (Nat.two_pow_pos k), Nat.div_eq_of_lt hr,
      Nat.zero_add]
  have hmod : ((2 ^ w - 1) * 2 ^ k + r) % 2 ^ k = r := by
    rw [Nat.add_comm, Nat.add_mul_mod_self_right, Nat.mod_eq_of_lt hr]
  have hrest : x % 2 ^ k &&& r = x &&& r := by
    have h := Nat.and_mod_two_pow (a := x) (b := r) (n := k)
    rw [Nat.mod_eq_of_lt hr] at h
    rw [← h, Nat.mod_eq_of_lt (Nat.lt_of_le_of_lt Nat.and_le_right hr)]
  rw [and_split x _ k, hdiv, hmod, hrest, Nat.and_two_pow_sub_one_eq_mod]

/-- A mask of trailing ones is a remainder. -/
theorem and_ones (x w : Nat) : x &&& (2 ^ w - 1) = x % 2 ^ w :=
  Nat.and_two_pow_sub_one_eq_mod x w

/-! ### Fields of a 32-bit word -/

/-- Putting a field above the bits already there adds it at its position. -/
theorem toNat_or_shiftLeft {x y : UInt32} {k : Nat} (hk : k < 32) (hx : x.toNat < 2 ^ k)
    (hy : y.toNat * 2 ^ k < 2 ^ 32) :
    (x ||| (y <<< UInt32.ofNat k)).toNat = y.toNat * 2 ^ k + x.toNat := by
  have hfit : y.toNat <<< k < 2 ^ 32 := by rwa [Nat.shiftLeft_eq]
  have hshift : (y <<< UInt32.ofNat k).toNat = y.toNat <<< k := by
    rw [UInt32.toNat_shiftLeft, UInt32.toNat_ofNat', Nat.mod_eq_of_lt (by omega : k < 2 ^ 32),
      Nat.mod_eq_of_lt hk, Nat.mod_eq_of_lt hfit]
  rw [UInt32.toNat_or, hshift, Nat.or_comm, ← Nat.shiftLeft_add_eq_or_of_lt hx, Nat.shiftLeft_eq]

/-- The byte at position `k` of a word. -/
theorem toNat_shiftRight_toUInt8 (x : UInt32) {k : Nat} (hk : k < 32) :
    (x >>> UInt32.ofNat k).toUInt8.toNat = x.toNat / 2 ^ k % 256 := by
  rw [UInt32.toNat_toUInt8, UInt32.toNat_shiftRight, UInt32.toNat_ofNat',
    Nat.mod_eq_of_lt (by omega : k < 2 ^ 32), Nat.mod_eq_of_lt hk, Nat.shiftRight_eq_div_pow]

/-! ### Bits of a 32-bit word -/

/-- A test of a single bit. -/
theorem and_twoPow_ne_zero {m : UInt32} {k : Nat} (hm : m.toNat = 2 ^ k) (x : UInt32) :
    x &&& m ≠ 0 ↔ x.toNat.testBit k = true := by
  rw [Ne, ← UInt32.toNat_inj, UInt32.toNat_and, hm, Nat.and_two_pow]
  cases x.toNat.testBit k <;> simp

/-- A single bit of a word is there or not. -/
theorem and_twoPow_cases {m : UInt32} {k : Nat} (hm : m.toNat = 2 ^ k) (x : UInt32) :
    x &&& m = 0 ∨ x &&& m = m := by
  rw [← UInt32.toNat_inj, ← UInt32.toNat_inj, UInt32.toNat_and, hm, Nat.and_two_pow]
  cases x.toNat.testBit k
  · left
    exact Nat.zero_mul _
  · right
    exact Nat.one_mul _

theorem and_or_and (x a b : UInt32) : (x &&& a) ||| (x &&& b) = x &&& (a ||| b) := by
  apply UInt32.toBitVec_inj.mp
  ext i
  simp only [UInt32.toBitVec_or, UInt32.toBitVec_and, BitVec.getElem_or, BitVec.getElem_and]
  exact (Bool.and_or_distrib_left ..).symm

theorem shiftRight_and (x : UInt32) (m k : UInt32) : (x >>> k) &&& (m >>> k) = (x &&& m) >>> k := by
  apply UInt32.toBitVec_inj.mp
  simp only [UInt32.toBitVec_and, UInt32.toBitVec_shiftRight]
  exact (BitVec.ushiftRight_and_distrib ..).symm

theorem testBit_not_word (x : UInt32) {i : Nat} (hi : i < 32) :
    (~~~x).toNat.testBit i = !x.toNat.testBit i := by
  have h := BitVec.getLsbD_not (x := x.toBitVec) (i := i)
  simpa [hi, BitVec.getLsbD] using h

theorem testBit_shiftRight_word (x : UInt32) {k : UInt32} (hk : k.toNat < 32) (i : Nat) :
    (x >>> k).toNat.testBit i = x.toNat.testBit (k.toNat + i) := by
  rw [UInt32.toNat_shiftRight, Nat.testBit_shiftRight, Nat.mod_eq_of_lt hk]

/-! ### Bits of a byte -/

theorem testBit_not (b : UInt8) {i : Nat} (hi : i < 8) :
    (~~~b).toNat.testBit i = !b.toNat.testBit i := by
  have h := BitVec.getLsbD_not (x := b.toBitVec) (i := i)
  simpa [hi, BitVec.getLsbD] using h

/-- A byte has no bit from position 8 on. -/
theorem testBit_of_le (b : UInt8) {i : Nat} (hi : 8 ≤ i) : b.toNat.testBit i = false :=
  Nat.testBit_lt_two_pow
    (Nat.lt_of_lt_of_le (UInt8.toNat_lt b) (Nat.pow_le_pow_right (by decide) hi))

/-- A byte with a single bit set. -/
theorem toNat_one_shiftLeft {x : UInt8} (hx : x.toNat < 8) :
    (1 <<< x : UInt8).toNat = 2 ^ x.toNat := by
  rw [UInt8.toNat_shiftLeft, Nat.mod_eq_of_lt hx, UInt8.toNat_one, Nat.one_shiftLeft]
  exact Nat.mod_eq_of_lt (Nat.pow_lt_pow_right (by decide) hx)

/-- Setting a bit of a byte. -/
theorem testBit_or_shiftLeft (b : UInt8) {x : UInt8} (hx : x.toNat < 8) (i : Nat) :
    (b ||| 1 <<< x).toNat.testBit i = (b.toNat.testBit i || decide (x.toNat = i)) := by
  rw [UInt8.toNat_or, Nat.testBit_or, toNat_one_shiftLeft hx, Nat.testBit_two_pow]

/-- Clearing a bit of a byte. -/
theorem testBit_and_not_shiftLeft (b : UInt8) {x : UInt8} (hx : x.toNat < 8) {i : Nat}
    (hi : i < 8) :
    (b &&& ~~~(1 <<< x)).toNat.testBit i = (b.toNat.testBit i && !decide (x.toNat = i)) := by
  rw [UInt8.toNat_and, Nat.testBit_and, testBit_not _ hi, toNat_one_shiftLeft hx,
    Nat.testBit_two_pow]

/-- Setting bits of a byte, seen through a mask. -/
theorem or_and_of_and {b m v : UInt8} (h : b &&& m = v) (c : UInt8) :
    (b ||| c) &&& m = v ||| (c &&& m) := by
  have hdistrib : (b ||| c) &&& m = (b &&& m) ||| (c &&& m) := by
    refine UInt8.toNat_inj.mp (Nat.eq_of_testBit_eq fun i => ?_)
    simp only [UInt8.toNat_and, UInt8.toNat_or, Nat.testBit_and, Nat.testBit_or,
      Bool.and_or_distrib_right]
  rw [hdistrib, h]

/-- Clearing bits of a byte, seen through a mask. -/
theorem and_and_of_and {b m v : UInt8} (h : b &&& m = v) (c : UInt8) :
    (b &&& c) &&& m = v &&& c := by
  rw [UInt8.and_assoc, UInt8.and_comm c m, ← UInt8.and_assoc, h]

/-- A byte with its lowest bit set. -/
theorem or_one_and_one (x : UInt8) : (x ||| 1) &&& 1 = 1 := by
  apply UInt8.toNat_inj.mp
  rw [UInt8.toNat_and, UInt8.toNat_or, UInt8.toNat_one, Nat.and_one_is_mod, Nat.or_mod_two_eq_one]
  exact .inr rfl

/-- Two bytes with the same bits are the same. -/
theorem eq_of_testBit {b c : UInt8} (h : ∀ i < 8, b.toNat.testBit i = c.toNat.testBit i) :
    b = c := by
  refine UInt8.toNat_inj.mp (Nat.eq_of_testBit_eq fun i => ?_)
  by_cases hi : i < 8
  · exact h i hi
  · rw [testBit_of_le b (by omega), testBit_of_le c (by omega)]

end BitField
