import Kyacopycat.Bus.ByteStore
import Kyacopycat.Lib.BigEndian
import Kyacopycat.Musashi

/-!
The RAM as the core sees it: a memory of big-endian numbers.

* `Core.read_ram`: a read of any width returns the number at the address.
* `Core.write_eq`, `Machine.ram_wrote`: a write of any width stores its number there.
-/

namespace Kyacopycat

open BigEndian

variable {n : Nat}

/-- The RAM as a memory of bytes, with zeros past its end. -/
def Machine.ram (s : Machine n) : Memory := fun i => (s.mainRam.load i).getD 0

/-- The `k` bytes at an address of the core are RAM. -/
def InRamSpan (n : Nat) (a : UInt32) (k : Nat) : Prop :=
  0x400000 ≤ a.toNat % 0x1000000 ∧ a.toNat % 0x1000000 + k ≤ 0x400000 + n

instance (a : UInt32) (k : Nat) : Decidable (InRamSpan n a k) := by
  unfold InRamSpan; infer_instance

/-- The place in the RAM of an address of the core. -/
@[irreducible] def ramPlace (a : UInt32) : Nat := a.toNat % 0x1000000 - 0x400000

theorem toNat_address68k (a : UInt32) : (address68k a).addr.toNat = a.toNat % 0x1000000 := by
  have hmask : (0x00ffffff : UInt32).toNat = 2 ^ 24 - 1 := by decide
  have hpow : 2 ^ 24 = 0x1000000 := by decide
  rw [address68k, UInt32.toNat_and, hmask, BitField.and_ones, hpow]

/-- The lanes of an access to the RAM. -/
theorem InRamSpan.lane {a : UInt32} {k j : Nat} (h : InRamSpan n a k) (hj : j < k) (h4 : j < 4) :
    InRam n ((address68k a).addr + UInt32.ofNat j) ∧
      ((address68k a).addr + UInt32.ofNat j).toNat - 0x400000 = ramPlace a + j := by
  obtain ⟨lo, hi⟩ := h
  have hlane := (address68k a).toNat_add h4
  rw [toNat_address68k] at hlane
  unfold InRam ramPlace
  rw [hlane]
  omega

/-! ### Reads -/

theorem m68kReadMemory8_inRam (size : SoundRamSize n) (s : Machine n) {a : UInt32}
    (h : InRam n a) :
    m68kReadMemory8 s a = some ((s.ram (a.toNat - 0x400000)).toUInt32, s) := by
  have hlt : a.toNat - 0x400000 < n := by
    obtain ⟨lo, hi⟩ := h
    omega
  rw [m68kReadMemory8_ram size.upper s h, ramIndex_eq size h, Machine.ram,
    CArray.load_of_lt _ hlt]
  rfl

/-- Reads of the RAM have no effect. -/
theorem readEffects_inRam (hn : n ≤ 0x400000) (s : Machine n) {as : List UInt32}
    (h : ∀ a ∈ as, InRam n a) : readEffects s as = s := by
  induction as with
  | nil => rfl
  | cons a as ih =>
    obtain ⟨lo, hi⟩ := h a List.mem_cons_self
    rw [readEffects, List.foldr_cons, ← readEffects,
      ih fun b hb => h b (List.mem_cons_of_mem _ hb), readEffect_of_lt s (by omega)]

/-- A read of the RAM returns the number at the address and changes nothing. -/
theorem m68kReadMemory_ram (size : SoundRamSize n) (s : Machine n) (w : Width) {a : UInt32}
    (h : InRamSpan n a w.lanes) :
    m68kReadMemory w s (address68k a).addr
      = some (UInt32.ofNat (value s.ram (ramPlace a) w.lanes), s) := by
  have hlanes := w.lanes_le
  have hn := size.upper
  obtain ⟨⟨v, t⟩, hread⟩ := Option.isSome_iff_exists.mp
    ((m68kReadMemory_isSome_iff w s (address68k a).addr).mpr fun k hk => by
      obtain ⟨lo, hi⟩ := (h.lane hk (by omega)).1
      rw [romTest_iff]
      omega)
  obtain ⟨rfl, hlt, lanes⟩ := m68kReadMemory_lanes hn hread
  have hin : ∀ b ∈ laneAddresses w (address68k a).addr, InRam n b := by
    intro b hb
    obtain ⟨k, hk, rfl⟩ := List.mem_map.mp hb
    have hk := List.mem_range.mp hk
    exact (h.lane hk (by omega)).1
  rw [readEffects_inRam hn s hin] at hread
  have hvalue : value s.ram (ramPlace a) w.lanes = v.toNat := by
    refine value_eq_of_digits hlt fun k hk => ?_
    obtain ⟨u, hbyte⟩ := lanes k hk
    obtain ⟨hlane, hplace⟩ := h.lane hk (by omega)
    rw [readEffects_inRam hn s fun b hb => hin b (List.mem_of_mem_drop hb),
      m68kReadMemory8_inRam size s hlane, hplace] at hbyte
    have heq := UInt8.toUInt32_inj.mp (congrArg Prod.fst (Option.some.inj hbyte))
    have hpow : 256 ^ (w.lanes - 1 - k) = 2 ^ (8 * (w.lanes - 1 - k)) := by
      rw [Nat.pow_mul]
    apply UInt8.toNat_inj.mp
    rw [heq, toNat_laneByte, UInt8.toNat_ofNat', hpow]
  rw [hread, hvalue, UInt32.ofNat_toNat]

/-! ### Writes -/

/-- The machine after a write of the core. -/
def Machine.wrote (ui : Ui) (w : Width) (s : Machine n) (a value : UInt32) : Machine n :=
  writtenAll ui s (BusWrite.lanes ⟨w, address68k a, value⟩)

theorem ram_written (ui : Ui) (s : Machine n) {a : UInt32} (value : UInt8) (h : InRam n a) :
    (written ui s a value).ram = Function.update s.ram (a.toNat - 0x400000) value := by
  have hlt : a.toNat - 0x400000 < n := by
    obtain ⟨lo, hi⟩ := h
    omega
  funext i
  rw [Machine.ram, written_mainRam, if_pos h, CArray.load_set, Function.update_apply]
  by_cases hi : i = a.toNat - 0x400000
  · rw [if_pos ⟨hi, hi ▸ hlt⟩, if_pos hi]
    rfl
  · rw [if_neg fun h => hi h.1, if_neg hi]
    rfl

/-- A lane of a value is one of its digits. -/
theorem laneByte_eq (w : Width) (v : UInt32) (k : Nat) :
    laneByte w v k = UInt8.ofNat (v.toNat / 256 ^ (w.lanes - 1 - k)) := by
  have hpow : 256 ^ (w.lanes - 1 - k) = 2 ^ (8 * (w.lanes - 1 - k)) := by
    rw [Nat.pow_mul]
  apply UInt8.toNat_inj.mp
  rw [toNat_laneByte, UInt8.toNat_ofNat', hpow]

/-- A write to the RAM stores its number at the address. -/
theorem Machine.ram_wrote (ui : Ui) (s : Machine n) {w : Width} {a : UInt32} (v : UInt32)
    (h : InRamSpan n a w.lanes) :
    (s.wrote ui w a v).ram = poke s.ram (ramPlace a) w.lanes v.toNat := by
  have hlanes := w.lanes_le
  have hprefix : ∀ m ≤ w.lanes,
      (writtenAll ui s ((List.range m).map fun k =>
          ((address68k a).addr + UInt32.ofNat k, laneByte w v k))).ram
        = fun i => if ramPlace a ≤ i ∧ i < ramPlace a + m then laneByte w v (i - ramPlace a)
            else s.ram i := by
    intro m hm
    induction m with
    | zero =>
      funext i
      rw [if_neg (by omega)]
      rfl
    | succ m ih =>
      obtain ⟨hin, hplace⟩ := h.lane (j := m) (by omega) (by omega)
      rw [List.range_succ, List.map_append, writtenAll_append, List.map_singleton,
        writtenAll_cons, writtenAll_nil, ram_written ui _ _ hin, ih (by omega), hplace]
      funext i
      rw [Function.update_apply]
      by_cases hi : i = ramPlace a + m
      · subst hi
        rw [if_pos rfl, if_pos (by omega), Nat.add_sub_cancel_left]
      · rw [if_neg hi]
        exact if_congr (by omega) rfl rfl
  rw [Machine.wrote, BusWrite.lanes, hprefix w.lanes (Nat.le_refl _)]
  funext i
  by_cases hi : ramPlace a ≤ i ∧ i < ramPlace a + w.lanes
  · rw [if_pos hi, poke_of_mem _ _ hi.1 hi.2, laneByte_eq]
    congr 3
    omega
  · rw [if_neg hi, poke_of_not_mem _ _ (by omega)]

/-! ### Accesses of the core -/

/-- A read of the core from the RAM. -/
theorem Core.read_ram (size : SoundRamSize n) {s : Core n} (mask : s.cpu.addressMask = 0x00ffffff)
    (w : Width) {a : UInt32} (h : InRamSpan n a w.lanes) :
    s.read w a = some (UInt32.ofNat (value s.machine.ram (ramPlace a) w.lanes), s) := by
  have hread := m68kReadMemory_ram size s.machine w h
  rw [address68k] at hread
  rw [Core.read, mask, hread]
  rfl

/-- A write of the core. -/
theorem Core.write_eq (size : SoundRamSize n) (ui : Ui) {s : Core n}
    (mask : s.cpu.addressMask = 0x00ffffff) (w : Width) (a v : UInt32) :
    s.write ui w a v = some { s with machine := s.machine.wrote ui w a v } := by
  have hwrite := BusWrite.step_eq size ui s.machine ⟨w, address68k a, v⟩
  rw [BusWrite.step, address68k] at hwrite
  rw [Core.write, mask, hwrite]
  rfl

end Kyacopycat
