import Kyacopycat.Bus.Effect

/-!
Two contracts of the address decoder that its masks break.

* `readInBounds_iff`: the read handlers stay inside their arrays exactly when no lane of the
  access lies in a hole of the ROM area. The mask that selects the ROM leaves address bits
  19 and 20 free and the index of `main_rom` is not masked.
* `ramOneToOne_iff`: the RAM is decoded one-to-one exactly for the sizes that are powers
  of two. The index uses `RAM_SIZE-1` as a mask, while `config.h` allows any multiple of
  128 KiB.
-/

namespace Kyacopycat

variable {n : Nat}

/-! ### Read bounds -/

/-- The read handler of the width makes no access past the end of an array. -/
def ReadInBounds (w : Width) (s : Machine n) (address : UInt32) : Prop :=
  (m68kReadMemory w s address).isSome

instance (w : Width) (s : Machine n) (address : UInt32) : Decidable (ReadInBounds w s address) := by
  unfold ReadInBounds; infer_instance

/-- A byte read and what follows it are defined when each is. -/
theorem isSome_bind_read {β : Type} {s : Machine n} {a : UInt32} {f : UInt32 × Machine n → Option β}
    {Q : Prop} (h : ∀ r, (f r).isSome ↔ Q) :
    ((m68kReadMemory8 s a).bind f).isSome ↔ ¬ (a &&& 0xE40000 = 0 ∧ 262144 ≤ a.toNat) ∧ Q := by
  rw [← m68kReadMemory8_isSome_iff s a]
  cases m68kReadMemory8 s a with
  | none => simp
  | some r => simpa using h r

/-- A read is defined when each of its lanes is. -/
theorem m68kReadMemory_isSome_iff (w : Width) (s : Machine n) (address : UInt32) :
    (m68kReadMemory w s address).isSome ↔ ∀ k < w.lanes,
      ¬ (address + UInt32.ofNat k &&& 0xE40000 = 0 ∧
        262144 ≤ (address + UInt32.ofNat k).toNat) := by
  have hzero : address + UInt32.ofNat 0 = address := UInt32.add_zero address
  cases w with
  | byte =>
    simp only [Width.lanes, Nat.lt_one_iff, forall_eq, hzero]
    exact m68kReadMemory8_isSome_iff s address
  | word =>
    have h := fun t : Machine n => m68kReadMemory8_isSome_iff t address
    simp only [m68kReadMemory, m68kReadMemory16, Option.bind_eq_bind, Option.pure_def]
    rw [isSome_bind_read (Q := ¬ (address &&& 0xE40000 = 0 ∧ 262144 ≤ address.toNat)) fun r => by
      rw [isSome_bind_read (Q := True) fun _ => by simp, and_true]]
    simp only [Width.lanes, Nat.forall_lt_succ_right, Nat.not_lt_zero, false_implies, forall_const,
      true_and, hzero]
    exact and_comm
  | long =>
    simp only [m68kReadMemory, m68kReadMemory32, Option.bind_eq_bind, Option.pure_def]
    rw [isSome_bind_read fun r1 => isSome_bind_read fun r2 => isSome_bind_read fun r3 =>
      isSome_bind_read (Q := True) fun _ => by simp]
    simp only [Width.lanes, Nat.forall_lt_succ_right, Nat.not_lt_zero, false_implies, forall_const,
      true_and, and_true, hzero]
    constructor
    · rintro ⟨h3, h2, h1, h0⟩
      exact ⟨⟨⟨h0, h1⟩, h2⟩, h3⟩
    · rintro ⟨⟨⟨h0, h1⟩, h2⟩, h3⟩
      exact ⟨h3, h2, h1, h0⟩

/-- A read of the CPU core stays in bounds exactly when none of its lanes is in a hole of
the ROM area. -/
theorem readInBounds_iff (s : Machine n) (w : Width) (a : BusAddress) :
    ReadInBounds w s a.addr ↔ ∀ k < w.lanes, ¬ RomHole (a.addr + UInt32.ofNat k) := by
  rw [ReadInBounds, m68kReadMemory_isSome_iff]
  refine forall₂_congr fun k hk => not_congr ?_
  have hlane := a.toNat_add (Nat.lt_of_lt_of_le hk w.lanes_le)
  have hbase := a.lt
  have hlanes := w.lanes_le
  exact (romHole_iff _ (by omega)).symm

/-- The byte at `0x080000` is read past the end of `main_rom`. -/
theorem not_readInBounds_080000 :
    ¬ ∀ (w : Width) (s : Machine ramSize) (a : BusAddress), ReadInBounds w s a.addr := fun all =>
  absurd (all .byte (Machine.initial ramSize) (address68k 0x080000)) (by decide)

/-! ### RAM sizes -/

/-- The address of byte `i` of the RAM. -/
def ramAddress (i : Nat) : UInt32 := UInt32.ofNat (0x400000 + i)

theorem toNat_ramAddress {i : Nat} (h : i < 0x400000) : (ramAddress i).toNat = 0x400000 + i := by
  rw [ramAddress, UInt32.toNat_ofNat']
  omega

/-- The addresses `0x400000 .. 0x400000+n-1` are decoded one-to-one onto the `n` bytes of
`main_ram`, by reads and writes alike. -/
structure RamOneToOne (n : Nat) : Prop where
  /-- Reads and writes use one bijective index. -/
  index : ∃ index : Fin n → Fin n, Function.Bijective index ∧
    (∀ (s : Machine n) (i : Fin n),
      m68kReadMemory8 s (ramAddress i) = some ((s.mainRam (index i)).toUInt32, s)) ∧
    ∀ (ui : Ui) (s : Machine n) (i : Fin n) (value : UInt32), ∃ t,
      m68kWriteMemory8 ui s (ramAddress i) value = some t ∧
        t.mainRam = s.mainRam.set (index i) value.toUInt8
  /-- A write to one address is not visible at another. -/
  separate : ∀ (ui : Ui) (s t : Machine n) (i j : Fin n) (value : UInt32), i ≠ j →
    m68kWriteMemory8 ui s (ramAddress i) value = some t →
      (m68kReadMemory8 t (ramAddress j)).map Prod.fst
        = (m68kReadMemory8 s (ramAddress j)).map Prod.fst
  /-- Every byte of the array is read at some address. -/
  reachable : ∀ j : Fin n, ∃ i : Fin n, ∀ s : Machine n,
    m68kReadMemory8 s (ramAddress i) = some ((s.mainRam j).toUInt32, s)

/-- A read of the RAM, of any size the area has room for. -/
theorem m68kReadMemory8_ram (hn : n ≤ 0x400000) (s : Machine n) {a : UInt32} (h : InRam n a) :
    m68kReadMemory8 s a
      = (s.mainRam.load (a.toNat &&& (n - 1))).map fun b => (b.toUInt32, s) := by
  obtain ⟨lo, hi⟩ := h
  rw [m68kReadMemory8, if_neg (by rw [romTest_iff]; omega), if_neg (by rw [svramTest_iff]; omega),
    if_neg (by rw [svromTest_iff]; omega), if_neg (by rw [lowArea_iff]; omega), if_pos ⟨lo, hi⟩]

theorem inRam_ramAddress (hn : n ≤ 0x400000) {i : Nat} (hi : i < n) : InRam n (ramAddress i) := by
  rw [InRam, toNat_ramAddress (by omega)]
  omega

/-- The index mask ignores the base address of the RAM. -/
theorem ramIndex_ramAddress (hn : n ≤ 0x400000) {i : Nat} (hi : i < n) :
    (ramAddress i).toNat &&& (n - 1) = i &&& (n - 1) := by
  have hi22 : i / 2 ^ 22 = 0 := Nat.div_eq_of_lt (by omega)
  have hn22 : (n - 1) / 2 ^ 22 = 0 := Nat.div_eq_of_lt (by omega)
  rw [toNat_ramAddress (by omega), BitField.and_split _ _ 22, BitField.and_split i _ 22, hn22,
    Nat.and_zero, Nat.and_zero, show 0x400000 + i = i + 2 ^ 22 * 1 by omega,
    Nat.add_mul_mod_self_left]

/-- The power-of-two sizes decode the RAM one-to-one. -/
theorem SoundRamSize.ramOneToOne (size : SoundRamSize n) : RamOneToOne n := by
  have hn := size.upper
  have hindex : ∀ i : Fin n, (ramAddress i).toNat &&& (n - 1) = i.val := fun i => by
    rw [ramIndex_eq size (inRam_ramAddress hn i.isLt), toNat_ramAddress (by omega)]
    omega
  have hread : ∀ (s : Machine n) (i : Fin n),
      m68kReadMemory8 s (ramAddress i) = some ((s.mainRam i).toUInt32, s) := fun s i => by
    rw [m68kReadMemory8_ram hn s (inRam_ramAddress hn i.isLt), hindex, CArray.load_of_lt _ i.isLt]
    rfl
  have hwrite : ∀ (ui : Ui) (s : Machine n) (i : Fin n) (value : UInt32), ∃ t,
      m68kWriteMemory8 ui s (ramAddress i) value = some t ∧
        t.mainRam = s.mainRam.set i value.toUInt8 := fun ui s i value => by
    refine ⟨_, m68kWriteMemory8_eq size ui s _ value, ?_⟩
    have hoffset : (ramAddress i).toNat - 0x400000 = i.val := by
      rw [toNat_ramAddress (by omega)]
      omega
    rw [written, if_pos (inRam_ramAddress hn i.isLt), hoffset]
    split <;> rfl
  refine ⟨⟨id, Function.bijective_id, hread, hwrite⟩, ?_, fun j => ⟨j, fun s => hread s j⟩⟩
  intro ui s t i j value hij h
  obtain ⟨u, hu, hram⟩ := hwrite ui s i value
  obtain rfl : u = t := Option.some.inj (hu.symm.trans h)
  rw [hread, hread, hram]
  have hne : j.val ≠ i.val := fun h => hij (Fin.ext h.symm)
  simp [hne]

/-- A size that is no power of two has a zero in its mask below its leading bit. -/
theorem exists_zero_bit (h0 : 0 < n) (h : ¬ ∃ k, n = 2 ^ k) :
    ∃ b, 2 ^ b < n ∧ (n - 1).testBit b = false := by
  by_contra hall
  push Not at hall
  have hlow := Nat.log2_self_le (Nat.ne_of_gt h0)
  have hhigh := Nat.lt_log2_self (n := n)
  have hlt : 2 ^ n.log2 < n := Nat.lt_of_le_of_ne hlow fun heq => h ⟨_, heq.symm⟩
  refine h ⟨n.log2 + 1, ?_⟩
  have hmask : n - 1 = 2 ^ (n.log2 + 1) - 1 := by
    apply Nat.eq_of_testBit_eq
    intro i
    rw [Nat.testBit_two_pow_sub_one]
    by_cases hi : i < n.log2 + 1
    · have hpow : 2 ^ i < n :=
        Nat.lt_of_le_of_lt (Nat.pow_le_pow_right (by decide) (Nat.le_of_lt_succ hi)) hlt
      simpa [hi] using hall i hpow
    · have hpow : n - 1 < 2 ^ i :=
        Nat.lt_of_lt_of_le (by omega) (Nat.pow_le_pow_right (by decide) (Nat.le_of_not_lt hi))
      simp [hi, Nat.testBit_lt_two_pow hpow]
  omega

/-- A write to the first byte of the RAM is defined whatever the size is. -/
theorem writeMainRam_first (h0 : 0 < n) (ui : Ui) (s : Machine n) {a : UInt32}
    (hindex : a.toNat &&& (n - 1) = 0) (value : UInt8) :
    ∃ t, writeMainRam ui s a value = some t ∧ t.mainRam = s.mainRam.set 0 value := by
  rw [writeMainRam, hindex, CArray.store_of_lt _ h0]
  simp only [Option.bind_eq_bind, Option.bind_some]
  split
  · rw [updatePixel, renderByte_eq _ _ _ _ _ (by decide)]
    exact ⟨_, rfl, rfl⟩
  · exact ⟨_, rfl, rfl⟩

/-- Where the mask has a zero bit, two addresses share a byte: what is written at the
first byte of the RAM is read at the address of that bit. -/
theorem not_ramOneToOne (h0 : 0 < n) (hn : n ≤ 0x400000) {b : Nat} (hb : 2 ^ b < n)
    (hbit : (n - 1).testBit b = false) : ¬ RamOneToOne n := by
  intro one
  have hfirst := inRam_ramAddress hn h0
  have hindex0 : (ramAddress 0).toNat &&& (n - 1) = 0 := by
    rw [ramIndex_ramAddress hn h0, Nat.zero_and]
  have hindexb : (ramAddress (2 ^ b)).toNat &&& (n - 1) = 0 := by
    rw [ramIndex_ramAddress hn hb, Nat.and_comm, Nat.and_two_pow, hbit]
    simp
  obtain ⟨t, ht, hram⟩ := writeMainRam_first h0 .sdl (Machine.initial n) hindex0 1
  replace ht : m68kWriteMemory8 .sdl (Machine.initial n) (ramAddress 0) 1 = some t :=
    (if_pos hfirst).trans ht
  have hvisible := one.separate .sdl _ t ⟨0, h0⟩ ⟨2 ^ b, hb⟩ 1
    (fun heq => absurd (congrArg Fin.val heq) (Nat.two_pow_pos b).ne) ht
  rw [m68kReadMemory8_ram hn _ (inRam_ramAddress hn hb),
    m68kReadMemory8_ram hn _ (inRam_ramAddress hn hb), hindexb, hram, CArray.load_of_lt _ h0,
    CArray.load_of_lt _ h0] at hvisible
  simp [Machine.initial, CArray.fill] at hvisible

/-- Of the RAM sizes that leave the RAM inside its area, exactly the powers of two are
decoded one-to-one. -/
theorem ramOneToOne_iff (hdvd : 131072 ∣ n) (h0 : 0 < n) (hn : n ≤ 0x400000) :
    RamOneToOne n ↔ ∃ k, n = 2 ^ k := by
  constructor
  · intro one
    by_contra hpow
    obtain ⟨b, hb, hbit⟩ := exists_zero_bit h0 hpow
    exact not_ramOneToOne h0 hn hb hbit one
  · intro hpow
    exact SoundRamSize.ramOneToOne ⟨hpow, Nat.le_of_dvd h0 hdvd, hn⟩

/-- The size `config.h` ships with is decoded one-to-one. -/
theorem ramOneToOne_ramSize : RamOneToOne ramSize ↔ ∃ k, ramSize = 2 ^ k :=
  ramOneToOne_iff (by decide) (by decide) (by decide)

/-- Three banks of 128 KiB, a size `config.h` allows, are not. -/
theorem not_ramOneToOne_three_banks :
    ¬ ∀ n, 131072 ∣ n → 0 < n → n ≤ 0x400000 → RamOneToOne n := fun all =>
  not_ramOneToOne (n := 393216) (b := 17) (by decide) (by decide) (by decide) (by decide)
    (all 393216 (by decide) (by decide) (by decide))

end Kyacopycat
