import Kyacopycat.Lib.BitField
import Kyacopycat.Bus

/-!
The address decoder, arithmetically.

The mask tests of `m68k_read_memory_8` and `m68k_write_memory_8` become statements
about quotients and remainders of the address.

* `romTest_iff` and its siblings: each mask test of the decoder.
* `m68kReadMemory8_isSome_iff`: a byte read is defined exactly outside the holes of
  the ROM area.
-/

namespace Kyacopycat

open BitField

variable {n : Nat}

/-! ### The mask tests -/

theorem romTest_iff (a : UInt32) :
    a &&& 0xE40000 = 0 ↔ a.toNat / 0x200000 % 8 = 0 ∧ a.toNat / 0x40000 % 2 = 0 := by
  have h : a.toNat &&& 0xE40000
      = a.toNat / 2 ^ 21 % 2 ^ 3 * 2 ^ 21 + a.toNat / 2 ^ 18 % 2 ^ 1 * 2 ^ 18 := by
    rw [show 0xE40000 = (2 ^ 3 - 1) * 2 ^ 21 + ((2 ^ 1 - 1) * 2 ^ 18 + 0) from rfl,
      and_field _ _ _ (by decide), and_field _ _ _ (by decide), Nat.and_zero, Nat.add_zero]
  rw [← UInt32.toNat_inj, UInt32.toNat_and]
  simp only [UInt32.reduceToNat] at *
  omega

theorem svramTest_iff (a : UInt32) :
    a &&& 0xE70001 = 0x40000 ↔ a.toNat / 0x200000 % 8 = 0 ∧ a.toNat / 0x40000 % 2 = 1 ∧
      a.toNat / 0x10000 % 4 = 0 ∧ a.toNat % 2 = 0 := by
  have h : a.toNat &&& 0xE70001
      = a.toNat / 2 ^ 21 % 2 ^ 3 * 2 ^ 21 + (a.toNat / 2 ^ 16 % 2 ^ 3 * 2 ^ 16
        + a.toNat / 2 ^ 0 % 2 ^ 1 * 2 ^ 0) := by
    rw [show 0xE70001 = (2 ^ 3 - 1) * 2 ^ 21 + ((2 ^ 3 - 1) * 2 ^ 16 + ((2 ^ 1 - 1) * 2 ^ 0 + 0))
        from rfl,
      and_field _ _ _ (by decide), and_field _ _ _ (by decide), and_field _ _ _ (by decide),
      Nat.and_zero, Nat.add_zero]
  rw [← UInt32.toNat_inj, UInt32.toNat_and]
  simp only [UInt32.reduceToNat] at *
  omega

theorem svramWindow_iff (a : UInt32) :
    a &&& 0xE70000 = 0x40000 ↔ a.toNat / 0x200000 % 8 = 0 ∧ a.toNat / 0x40000 % 2 = 1 ∧
      a.toNat / 0x10000 % 4 = 0 := by
  have h : a.toNat &&& 0xE70000
      = a.toNat / 2 ^ 21 % 2 ^ 3 * 2 ^ 21 + a.toNat / 2 ^ 16 % 2 ^ 3 * 2 ^ 16 := by
    rw [show 0xE70000 = (2 ^ 3 - 1) * 2 ^ 21 + ((2 ^ 3 - 1) * 2 ^ 16 + 0) from rfl,
      and_field _ _ _ (by decide), and_field _ _ _ (by decide), Nat.and_zero, Nat.add_zero]
  rw [← UInt32.toNat_inj, UInt32.toNat_and]
  simp only [UInt32.reduceToNat] at *
  omega

theorem svromTest_iff (a : UInt32) :
    a &&& 0xE40001 = 0x200001 ↔ a.toNat / 0x200000 % 8 = 1 ∧ a.toNat / 0x40000 % 2 = 0 ∧
      a.toNat % 2 = 1 := by
  have h : a.toNat &&& 0xE40001
      = a.toNat / 2 ^ 21 % 2 ^ 3 * 2 ^ 21 + (a.toNat / 2 ^ 18 % 2 ^ 1 * 2 ^ 18
        + a.toNat / 2 ^ 0 % 2 ^ 1 * 2 ^ 0) := by
    rw [show 0xE40001 = (2 ^ 3 - 1) * 2 ^ 21 + ((2 ^ 1 - 1) * 2 ^ 18 + ((2 ^ 1 - 1) * 2 ^ 0 + 0))
        from rfl,
      and_field _ _ _ (by decide), and_field _ _ _ (by decide), and_field _ _ _ (by decide),
      Nat.and_zero, Nat.add_zero]
  rw [← UInt32.toNat_inj, UInt32.toNat_and]
  simp only [UInt32.reduceToNat] at *
  omega

/-- The two top address bits. -/
theorem topBits_eq (a : UInt32) : (a &&& 0xC00000).toNat = a.toNat / 0x400000 % 4 * 0x400000 := by
  rw [UInt32.toNat_and, show (0xC00000 : UInt32).toNat = (2 ^ 2 - 1) * 2 ^ 22 + 0 from rfl,
    and_field _ _ _ (by decide), Nat.and_zero, Nat.add_zero]
  rfl

theorem lowArea_iff (a : UInt32) : a &&& 0xC00000 = 0 ↔ a.toNat / 0x400000 % 4 = 0 := by
  rw [← UInt32.toNat_inj, topBits_eq]
  simp only [UInt32.reduceToNat]
  omega

theorem ramArea_iff (a : UInt32) : a &&& 0xC00000 = 0x400000 ↔ a.toNat / 0x400000 % 4 = 1 := by
  rw [← UInt32.toNat_inj, topBits_eq]
  simp only [UInt32.reduceToNat]
  omega

theorem svramIndex_eq (a : UInt32) : ((a >>> 1) &&& 0x1FFF).toNat = a.toNat / 2 % 8192 := by
  rw [UInt32.toNat_and, UInt32.toNat_shiftRight,
    show (0x1FFF : UInt32).toNat = 2 ^ 13 - 1 from rfl, and_ones]
  simp [Nat.shiftRight_eq_div_pow]

theorem svromIndex_eq (a : UInt32) : ((a >>> 1) &&& 0x1FFFF).toNat = a.toNat / 2 % 131072 := by
  rw [UInt32.toNat_and, UInt32.toNat_shiftRight,
    show (0x1FFFF : UInt32).toNat = 2 ^ 17 - 1 from rfl, and_ones]
  simp [Nat.shiftRight_eq_div_pow]

/-- The RAM index stays below the size of the RAM, whatever the size is. -/
theorem ramIndex_lt (a : UInt32) (h : 0 < n) : a.toNat &&& (n - 1) < n :=
  Nat.lt_of_le_of_lt Nat.and_le_right (by omega)

/-! ### Lanes -/

/-- Lane `k` of an access at a 24-bit base does not wrap. -/
theorem BusAddress.toNat_add (a : BusAddress) {k : Nat} (h : k < 4) :
    (a.addr + UInt32.ofNat k).toNat = a.addr.toNat + k := by
  have := a.lt
  rw [UInt32.toNat_add, UInt32.toNat_ofNat']
  omega

theorem Width.lanes_le (w : Width) : w.lanes ≤ 4 := by
  cases w <;> decide

/-! ### Where a byte read is defined -/

/-- The addresses the decoder sends to `main_rom` that lie past its end: mirrors of the
ROM area in the bits the mask leaves free, and lanes that ran out of the 24 bits. -/
def RomHole (a : UInt32) : Prop :=
  (0x080000 ≤ a.toNat ∧ a.toNat < 0x0C0000) ∨ (0x100000 ≤ a.toNat ∧ a.toNat < 0x140000) ∨
    (0x180000 ≤ a.toNat ∧ a.toNat < 0x1C0000) ∨ 0x1000000 ≤ a.toNat

instance (a : UInt32) : Decidable (RomHole a) := by
  unfold RomHole; infer_instance

/-- An address past the ROM is sent to it exactly in the holes. -/
theorem romHole_iff (a : UInt32) (h : a.toNat < 0x1000003) :
    RomHole a ↔ a &&& 0xE40000 = 0 ∧ 262144 ≤ a.toNat := by
  rw [romTest_iff, RomHole]
  omega

/-- A byte read is defined exactly when it is not sent past the end of `main_rom`. -/
theorem m68kReadMemory8_isSome_iff (s : Machine n) (a : UInt32) :
    (m68kReadMemory8 s a).isSome ↔ ¬ (a &&& 0xE40000 = 0 ∧ 262144 ≤ a.toNat) := by
  unfold m68kReadMemory8
  by_cases rom : a &&& 0xE40000 = 0
  · simp [rom]
  rw [if_neg rom, iff_true_right (fun h => rom h.1), svramIndex_eq, svromIndex_eq]
  by_cases sv : a &&& 0xE70001 = 0x40000
  · rw [if_pos sv, CArray.load_of_lt _ (Nat.mod_lt _ (by decide))]; rfl
  by_cases svr : a &&& 0xE40001 = 0x200001
  · rw [if_neg sv, if_pos svr, CArray.load_of_lt _ (Nat.mod_lt _ (by decide))]; rfl
  rw [if_neg sv, if_neg svr]
  by_cases low : a &&& 0xC00000 = 0
  · rw [if_pos low]; rfl
  rw [if_neg low]
  by_cases ram : 0x400000 ≤ a.toNat ∧ a.toNat < 0x400000 + n
  · rw [if_pos ram, CArray.load_of_lt _ (ramIndex_lt a (by omega))]; rfl
  rw [if_neg ram]
  split <;> rfl

end Kyacopycat
