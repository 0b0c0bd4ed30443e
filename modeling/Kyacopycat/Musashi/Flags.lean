import Kyacopycat.Lib.BitField
import Kyacopycat.Musashi

/-!
The condition codes: the flag macros and the conditions of `m68kcpu.h`.

The core keeps each flag in a word of its own, in the position where the arithmetic leaves it:
carry and extend in bit 8, sign and overflow in bit 7, and the zero flag as a word that is zero
when the flag is set.

* `Flags`: the five words, and `Condition`, the conditions of the conditional instructions.
* `cflagAdd_iff`, `cflagSub_iff`: the carry flag is the carry, or the borrow, of the operation.
* `vflagAdd_iff`, `vflagSub_iff`: the overflow flag says that the signed result is not exact.
-/

namespace Kyacopycat

/-! ### The macros -/

/-- The condition codes as the core keeps them. -/
structure Flags where
  x : UInt32
  n : UInt32
  notZ : UInt32
  v : UInt32
  c : UInt32
  deriving DecidableEq, Repr

/-- `FLAG_X`, `FLAG_N`, `FLAG_Z`, `FLAG_V` and `FLAG_C`. -/
def Cpu.flags (c : Cpu) : Flags := ⟨c.xFlag, c.nFlag, c.notZFlag, c.vFlag, c.cFlag⟩

/-- Assign the condition codes. -/
def Cpu.setFlags (c : Cpu) (f : Flags) : Cpu :=
  { c with xFlag := f.x, nFlag := f.n, notZFlag := f.notZ, vFlag := f.v, cFlag := f.c }

/-- `MASK_OUT_ABOVE_8`, `_16` and `_32`. -/
def maskOutAbove : Width → UInt32 → UInt32
  | .byte, a => a &&& 0xff
  | .word, a => a &&& 0xffff
  | .long, a => a &&& 0xffffffff

/-- `MASK_OUT_BELOW_8`, `_16` and `_32`. -/
def maskOutBelow : Width → UInt32 → UInt32
  | .byte, a => a &&& ~~~0xff
  | .word, a => a &&& ~~~0xffff
  | .long, a => a &&& ~~~0xffffffff

/-- `CFLAG_8`, `CFLAG_16` and `CFLAG_ADD_32`. -/
def cflagAdd : Width → (s d r : UInt32) → UInt32
  | .byte, _, _, r => r
  | .word, _, _, r => r >>> 8
  | .long, s, d, r => ((s &&& d) ||| (~~~r &&& (s ||| d))) >>> 23

/-- `CFLAG_8`, `CFLAG_16` and `CFLAG_SUB_32`. -/
def cflagSub : Width → (s d r : UInt32) → UInt32
  | .byte, _, _, r => r
  | .word, _, _, r => r >>> 8
  | .long, s, d, r => ((s &&& r) ||| (~~~d &&& (s ||| r))) >>> 23

/-- `VFLAG_ADD_8`, `_16` and `_32`. -/
def vflagAdd : Width → (s d r : UInt32) → UInt32
  | .byte, s, d, r => (s ^^^ r) &&& (d ^^^ r)
  | .word, s, d, r => ((s ^^^ r) &&& (d ^^^ r)) >>> 8
  | .long, s, d, r => ((s ^^^ r) &&& (d ^^^ r)) >>> 24

/-- `VFLAG_SUB_8`, `_16` and `_32`. -/
def vflagSub : Width → (s d r : UInt32) → UInt32
  | .byte, s, d, r => (s ^^^ d) &&& (r ^^^ d)
  | .word, s, d, r => ((s ^^^ d) &&& (r ^^^ d)) >>> 8
  | .long, s, d, r => ((s ^^^ d) &&& (r ^^^ d)) >>> 24

/-- `NFLAG_8`, `NFLAG_16` and `NFLAG_32`. -/
def nflag : Width → UInt32 → UInt32
  | .byte, r => r
  | .word, r => r >>> 8
  | .long, r => r >>> 24

/-- `XFLAG_AS_1`. -/
def Flags.xAs1 (f : Flags) : UInt32 := (f.x >>> 8) &&& 1

/-- `COND_XS`. -/
def Flags.xs (f : Flags) : Bool := f.x &&& 0x100 ≠ 0

/-- `COND_CS`. -/
def Flags.cs (f : Flags) : Bool := f.c &&& 0x100 ≠ 0

/-- `COND_VS`. -/
def Flags.vs (f : Flags) : Bool := f.v &&& 0x80 ≠ 0

/-- `COND_NE`. -/
def Flags.ne (f : Flags) : Bool := f.notZ ≠ 0

/-- `COND_MI`. -/
def Flags.mi (f : Flags) : Bool := f.n &&& 0x80 ≠ 0

/-- `COND_LT`. -/
def Flags.lt (f : Flags) : Bool := (f.n ^^^ f.v) &&& 0x80 ≠ 0

/-- The conditions that `M68KMAKE_CC` stands for. -/
inductive Condition where
  | hi
  | ls
  | cc
  | cs
  | ne
  | eq
  | vc
  | vs
  | pl
  | mi
  | ge
  | lt
  | gt
  | le
  deriving DecidableEq, Repr

/-- `COND_HI` to `COND_LE`. -/
def cond : Condition → Flags → Bool
  | .hi, f => !f.cs && f.ne
  | .ls, f => f.cs || !f.ne
  | .cc, f => !f.cs
  | .cs, f => f.cs
  | .ne, f => f.ne
  | .eq, f => !f.ne
  | .vc, f => !f.vs
  | .vs, f => f.vs
  | .pl, f => !f.mi
  | .mi, f => f.mi
  | .ge, f => !f.lt
  | .lt, f => f.lt
  | .gt, f => !f.lt && f.ne
  | .le, f => f.lt || !f.ne

/-- `COND_NOT_HI` to `COND_NOT_LE`, each the condition that the header names for it. -/
def condNot : Condition → Flags → Bool
  | .hi => cond .ls
  | .ls => cond .hi
  | .cc => cond .cs
  | .cs => cond .cc
  | .ne => cond .eq
  | .eq => cond .ne
  | .vc => cond .vs
  | .vs => cond .vc
  | .pl => cond .mi
  | .mi => cond .pl
  | .ge => cond .lt
  | .lt => cond .ge
  | .gt => cond .le
  | .le => cond .gt

/-- The reversed conditions are the negations. -/
theorem condNot_eq (c : Condition) (f : Flags) : condNot c f = !cond c f := by
  cases c <;> simp [condNot, cond]

theorem lt_eq_mi_ne_vs (f : Flags) : f.lt = (f.mi != f.vs) := by
  have hbit : ∀ a : UInt32, decide (a &&& 0x80 ≠ 0) = a.toNat.testBit 7 := fun a => by
    rw [Bool.eq_iff_iff, decide_eq_true_iff, BitField.and_twoPow_ne_zero (k := 7) (by decide)]
  rw [Flags.lt, Flags.mi, Flags.vs, hbit, hbit, hbit, UInt32.toNat_xor, Nat.testBit_xor]

/-- Four of the flags decide every condition. -/
theorem cond_congr {f g : Flags} (cs : f.cs = g.cs) (ne : f.ne = g.ne) (vs : f.vs = g.vs)
    (mi : f.mi = g.mi) (c : Condition) : cond c f = cond c g := by
  have lt : f.lt = g.lt := by rw [lt_eq_mi_ne_vs, lt_eq_mi_ne_vs, mi, vs]
  cases c <;> simp only [cond, cs, ne, vs, mi, lt]

/-! ### What the macros compute -/

/-- The words of a width from this one on have the sign bit set. -/
def Width.half : Width → Nat
  | .byte => 128
  | .word => 32768
  | .long => 2147483648

theorem Width.pow_lanes (w : Width) : 256 ^ w.lanes = 2 * w.half := by
  cases w <;> rfl

/-- The position of the sign bit. -/
def Width.sign (w : Width) : Nat := 8 * w.lanes - 1

theorem testBit_sign (w : Width) (a : UInt32) :
    a.toNat.testBit w.sign = decide (w.half ≤ a.toNat % 256 ^ w.lanes) := by
  have hlt := a.toNat_lt
  rw [Nat.testBit_eq_decide_div_mod_eq, decide_eq_decide]
  cases w <;> simp only [Width.sign, Width.half, Width.lanes] <;> omega

theorem toNat_maskOutAbove (w : Width) (a : UInt32) :
    (maskOutAbove w a).toNat = a.toNat % 256 ^ w.lanes := by
  have hlt := a.toNat_lt
  cases w with
  | byte => exact (UInt32.toNat_and a 0xff).trans (BitField.and_ones a.toNat 8)
  | word => exact (UInt32.toNat_and a 0xffff).trans (BitField.and_ones a.toNat 16)
  | long => exact (UInt32.toNat_and a 0xffffffff).trans (BitField.and_ones a.toNat 32)

theorem toNat_maskOutBelow (w : Width) (a : UInt32) :
    (maskOutBelow w a).toNat = a.toNat / 256 ^ w.lanes * 256 ^ w.lanes := by
  have hlt := a.toNat_lt
  have field : ∀ k l, a.toNat / 2 ^ k < 2 ^ l →
      a.toNat &&& ((2 ^ l - 1) * 2 ^ k + 0) = a.toNat / 2 ^ k * 2 ^ k := by
    intro k l fits
    rw [BitField.and_field a.toNat k l (Nat.two_pow_pos k), Nat.mod_eq_of_lt fits, Nat.and_zero,
      Nat.add_zero]
  cases w with
  | byte => exact (UInt32.toNat_and a 0xffffff00).trans (field 8 24 (by omega))
  | word => exact (UInt32.toNat_and a 0xffff0000).trans (field 16 16 (by omega))
  | long => exact (UInt32.toNat_and a 0).trans (field 32 0 (by omega))

/-- A result in the low part of a register. -/
theorem toNat_merge (w : Width) (a r : UInt32) :
    (maskOutBelow w a ||| maskOutAbove w r).toNat
      = a.toNat / 256 ^ w.lanes * 256 ^ w.lanes + r.toNat % 256 ^ w.lanes := by
  have hpow : 256 ^ w.lanes = 2 ^ (8 * w.lanes) := Nat.pow_mul 2 8 w.lanes ▸ rfl
  have hlt : r.toNat % 256 ^ w.lanes < 2 ^ (8 * w.lanes) :=
    hpow ▸ Nat.mod_lt _ (Nat.pow_pos (by decide))
  rw [UInt32.toNat_or, toNat_maskOutBelow, toNat_maskOutAbove]
  have h := Nat.shiftLeft_add_eq_or_of_lt hlt (a.toNat / 256 ^ w.lanes)
  rw [Nat.shiftLeft_eq, ← hpow] at h
  exact h.symm

/-- Where the macros that shift a sign bit into bit 7 find it. -/
theorem testBit_toBit7 (w : Width) (a : UInt32) :
    (nflag w a).toNat.testBit 7 = a.toNat.testBit w.sign := by
  cases w with
  | byte => rfl
  | word => exact BitField.testBit_shiftRight_word a (k := 8) (by decide) 7
  | long => exact BitField.testBit_shiftRight_word a (k := 24) (by decide) 7

/-- The sign flag is the sign bit of the result. -/
theorem nflag_iff (w : Width) (r : UInt32) :
    nflag w r &&& 0x80 ≠ 0 ↔ w.half ≤ r.toNat % 256 ^ w.lanes := by
  rw [BitField.and_twoPow_ne_zero (k := 7) (by decide), testBit_toBit7, testBit_sign,
    decide_eq_true_iff]

/-- The overflow flag of an addition compares sign bits. -/
theorem vflagAdd_iff (w : Width) (s d r : UInt32) :
    vflagAdd w s d r &&& 0x80 ≠ 0 ↔
      ¬ (w.half ≤ s.toNat % 256 ^ w.lanes ↔ w.half ≤ r.toNat % 256 ^ w.lanes) ∧
        ¬ (w.half ≤ d.toNat % 256 ^ w.lanes ↔ w.half ≤ r.toNat % 256 ^ w.lanes) := by
  have hshift : vflagAdd w s d r = nflag w ((s ^^^ r) &&& (d ^^^ r)) := by cases w <;> rfl
  rw [hshift, BitField.and_twoPow_ne_zero (k := 7) (by decide), testBit_toBit7, UInt32.toNat_and,
    UInt32.toNat_xor, UInt32.toNat_xor, Nat.testBit_and, Nat.testBit_xor, Nat.testBit_xor,
    testBit_sign, testBit_sign, testBit_sign, Bool.and_eq_true, bne_iff_ne, bne_iff_ne, ne_eq,
    ne_eq, decide_eq_decide, decide_eq_decide]

/-- The overflow flag of a subtraction compares sign bits. -/
theorem vflagSub_iff (w : Width) (s d r : UInt32) :
    vflagSub w s d r &&& 0x80 ≠ 0 ↔
      ¬ (w.half ≤ s.toNat % 256 ^ w.lanes ↔ w.half ≤ d.toNat % 256 ^ w.lanes) ∧
        ¬ (w.half ≤ r.toNat % 256 ^ w.lanes ↔ w.half ≤ d.toNat % 256 ^ w.lanes) := by
  have hshift : vflagSub w s d r = nflag w ((s ^^^ d) &&& (r ^^^ d)) := by cases w <;> rfl
  rw [hshift, BitField.and_twoPow_ne_zero (k := 7) (by decide), testBit_toBit7, UInt32.toNat_and,
    UInt32.toNat_xor, UInt32.toNat_xor, Nat.testBit_and, Nat.testBit_xor, Nat.testBit_xor,
    testBit_sign, testBit_sign, testBit_sign, Bool.and_eq_true, bne_iff_ne, bne_iff_ne, ne_eq,
    ne_eq, decide_eq_decide, decide_eq_decide]

theorem carry_byte (r : UInt32) : r &&& 0x100 ≠ 0 ↔ r.toNat / 256 % 2 = 1 := by
  rw [BitField.and_twoPow_ne_zero (k := 8) (by decide), Nat.testBit_eq_decide_div_mod_eq,
    decide_eq_true_iff]

theorem carry_word (r : UInt32) : (r >>> 8) &&& 0x100 ≠ 0 ↔ r.toNat / 65536 % 2 = 1 := by
  rw [BitField.and_twoPow_ne_zero (k := 8) (by decide),
    BitField.testBit_shiftRight_word r (by decide), Nat.testBit_eq_decide_div_mod_eq,
    decide_eq_true_iff]
  rfl

theorem carry_long (a : UInt32) :
    (a >>> 23) &&& 0x100 ≠ 0 ↔ a.toNat.testBit 31 = true := by
  rw [BitField.and_twoPow_ne_zero (k := 8) (by decide),
    BitField.testBit_shiftRight_word a (by decide)]
  exact Iff.rfl

theorem testBit_31 (a : UInt32) : a.toNat.testBit 31 = decide (2147483648 ≤ a.toNat) := by
  have hlt := a.toNat_lt
  rw [Nat.testBit_eq_decide_div_mod_eq, decide_eq_decide]
  omega

/-- The carry flag of an addition with carry is its carry. -/
theorem cflagAdd_iff (w : Width) {s d x : UInt32} (hs : s.toNat < 256 ^ w.lanes)
    (hd : d.toNat < 256 ^ w.lanes) (hx : x.toNat ≤ 1) :
    cflagAdd w s d (s + d + x) &&& 0x100 ≠ 0 ↔
      256 ^ w.lanes ≤ s.toNat + d.toNat + x.toNat := by
  have hr : (s + d + x).toNat = (s.toNat + d.toNat + x.toNat) % 4294967296 := by
    rw [UInt32.toNat_add, UInt32.toNat_add]
    omega
  cases w with
  | byte =>
    simp only [Width.lanes] at hs hd ⊢
    rw [cflagAdd, carry_byte, hr]
    omega
  | word =>
    simp only [Width.lanes] at hs hd ⊢
    rw [cflagAdd, carry_word, hr]
    omega
  | long =>
    simp only [Width.lanes] at hs hd ⊢
    -- bit 31 of the majority of the operands and the inverted result
    rw [cflagAdd, carry_long]
    simp only [UInt32.toNat_or, UInt32.toNat_and, Nat.testBit_or, Nat.testBit_and,
      BitField.testBit_not_word _ (show 31 < 32 by decide), testBit_31, Bool.or_eq_true,
      Bool.and_eq_true, decide_eq_true_iff, Bool.not_eq_true', decide_eq_false_iff_not]
    omega

/-- The carry flag of a subtraction with borrow is its borrow. -/
theorem cflagSub_iff (w : Width) {s d x : UInt32} (hs : s.toNat < 256 ^ w.lanes)
    (hd : d.toNat < 256 ^ w.lanes) (hx : x.toNat ≤ 1) :
    cflagSub w s d (d - s - x) &&& 0x100 ≠ 0 ↔ d.toNat < s.toNat + x.toNat := by
  have hlt := d.toNat_lt
  have hlt' := s.toNat_lt
  have hr : (d - s - x).toNat = (d.toNat + 8589934592 - s.toNat - x.toNat) % 4294967296 := by
    rw [UInt32.toNat_sub, UInt32.toNat_sub]
    omega
  cases w with
  | byte =>
    simp only [Width.lanes] at hs hd
    rw [cflagSub, carry_byte, hr]
    omega
  | word =>
    simp only [Width.lanes] at hs hd
    rw [cflagSub, carry_word, hr]
    omega
  | long =>
    rw [cflagSub, carry_long]
    simp only [UInt32.toNat_or, UInt32.toNat_and, Nat.testBit_or, Nat.testBit_and,
      BitField.testBit_not_word _ (show 31 < 32 by decide), testBit_31, Bool.or_eq_true,
      Bool.and_eq_true, decide_eq_true_iff, Bool.not_eq_true', decide_eq_false_iff_not]
    omega

end Kyacopycat
