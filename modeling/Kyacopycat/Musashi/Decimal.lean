import Kyacopycat.Musashi.Arithmetic

/-!
Decimal arithmetic: `abcd` and `sbcd`.

A byte holds two decimal digits. Over a loop of `-(Ay),-(Ax)` the extend flag carries from byte
to byte, so two blocks of packed digits are added, or subtracted, as decimal numbers of any
length.

* `abcd_number`, `sbcd_number`: the corrections of one byte are right on decimal digits.
* `abcd_chain`, `sbcd_chain`: the long result.
-/

namespace Kyacopycat

open BigEndian

variable {n : Nat}

/-! ### The handlers -/

/-- `LOW_NIBBLE`. -/
def lowNibble (a : UInt32) : UInt32 := a &&& 0x0f

/-- `HIGH_NIBBLE`. -/
def highNibble (a : UInt32) : UInt32 := a &&& 0xf0

/-- The arithmetic of the `abcd` handlers. -/
def abcd : Arithmetic := fun f src dst =>
  let res := lowNibble src + lowNibble dst + f.xAs1
  let v := ~~~res
  let res := if res > 9 then res + 6 else res
  let res := res + (highNibble src + highNibble dst)
  let c := (if res > 0x99 then (1 : UInt32) else 0) <<< 8
  let res := if c ≠ 0 then res - 0xa0 else res
  let v := v &&& res
  let masked := maskOutAbove .byte res
  (masked, { x := c, c, v, n := nflag .byte res, notZ := f.notZ ||| masked })

/-- The arithmetic of the `sbcd` handlers, which set the undefined flags after the mask. -/
def sbcd : Arithmetic := fun f src dst =>
  let res := lowNibble dst - lowNibble src - f.xAs1
  let v := ~~~res
  let res := if res > 9 then res - 6 else res
  let res := res + (highNibble dst - highNibble src)
  let c := (if res > 0x99 then (1 : UInt32) else 0) <<< 8
  let res := if c ≠ 0 then res + 0xa0 else res
  let masked := maskOutAbove .byte res
  (masked, { x := c, c, v := v &&& masked, n := nflag .byte masked, notZ := f.notZ ||| masked })

/-- `m68k_op_abcd_8_mm`. -/
def m68kOpAbcd8Mm (ui : Ui) (s : Core n) : Option (Core n) :=
  memoryToMemory ui .byte abcd (.natural .byte s.cpu.y) (.natural .byte s.cpu.x) s

/-- `m68k_op_sbcd_8_mm`. -/
def m68kOpSbcd8Mm (ui : Ui) (s : Core n) : Option (Core n) :=
  memoryToMemory ui .byte sbcd (.natural .byte s.cpu.y) (.natural .byte s.cpu.x) s

/-! ### Packed digits -/

/-- A byte of two decimal digits. -/
def Packed (d : Nat) : Prop := d % 16 ≤ 9 ∧ d / 16 ≤ 9

/-- The number of the two digits of a byte. -/
def unpack (d : Nat) : Nat := 10 * (d / 16) + d % 16

theorem unpack_eq_zero (d : Nat) : unpack d = 0 ↔ d = 0 := by
  unfold unpack
  omega

theorem toNat_lowNibble (a : UInt32) : (lowNibble a).toNat = a.toNat % 16 :=
  (UInt32.toNat_and a 0x0f).trans (BitField.and_ones a.toNat 4)

theorem toNat_highNibble (a : UInt32) : (highNibble a).toNat = a.toNat / 16 % 16 * 16 := by
  have hfield := BitField.and_field a.toNat 4 4 (r := 0) (by decide)
  rw [Nat.and_zero] at hfield
  exact (UInt32.toNat_and a 0xf0).trans hfield

/-- The carry of a decimal operation. -/
theorem carry_ne_zero (p : Prop) [Decidable p] :
    (if p then (1 : UInt32) else 0) <<< 8 ≠ 0 ↔ p := by
  split <;> rename_i h
  · exact iff_of_true (by decide) h
  · exact iff_of_false (by decide) h

theorem carry_and (p : Prop) [Decidable p] :
    ((if p then (1 : UInt32) else 0) <<< 8) &&& 0x100 ≠ 0 ↔ p := by
  split <;> rename_i h
  · exact iff_of_true (by decide) h
  · exact iff_of_false (by decide) h

/-- The corrections of `abcd`: the sum of two bytes of digits and the extend flag, and the
carry. -/
theorem abcd_number (f : Flags) {s d : UInt32} (hs : Packed s.toNat) (hd : Packed d.toNat) :
    unpack (abcd f s d).1.toNat + 100 * (abcd f s d).2.xs.toNat
        = unpack s.toNat + unpack d.toNat + f.xs.toNat ∧
      Packed (abcd f s d).1.toNat := by
  have hx := toNat_xAs1_le f
  have hls := toNat_lowNibble s
  have hld := toNat_lowNibble d
  have hhs := toNat_highNibble s
  have hhd := toNat_highNibble d
  obtain ⟨hs0, hs1⟩ := hs
  obtain ⟨hd0, hd1⟩ := hd
  -- the low digits
  obtain ⟨low, hlow⟩ : ∃ u, u = lowNibble s + lowNibble d + f.xAs1 := ⟨_, rfl⟩
  have hlowNat : low.toNat = s.toNat % 16 + d.toNat % 16 + f.xAs1.toNat := by
    rw [hlow, UInt32.toNat_add, UInt32.toNat_add]
    omega
  -- both digits, with the carry of the low ones
  obtain ⟨sum, hsum⟩ : ∃ u, u = (if low > 9 then low + 6 else low)
      + (highNibble s + highNibble d) := ⟨_, rfl⟩
  have hsumNat : sum.toNat = low.toNat + (if 9 < low.toNat then 6 else 0)
      + s.toNat / 16 * 16 + d.toNat / 16 * 16 := by
    rw [hsum]
    by_cases h : low > 9
    · have h' : 9 < low.toNat := UInt32.lt_iff_toNat_lt.mp h
      rw [if_pos h, if_pos h', UInt32.toNat_add, UInt32.toNat_add, UInt32.toNat_add]
      simp only [UInt32.reduceToNat]
      omega
    · have h' : ¬ 9 < low.toNat := fun h' => h (UInt32.lt_iff_toNat_lt.mpr h')
      rw [if_neg h, if_neg h', UInt32.toNat_add, UInt32.toNat_add]
      omega
  have hxs : (abcd f s d).2.xs = decide (sum > 0x99) := by
    rw [hsum, hlow]
    exact decide_eq_decide.mpr (carry_and _)
  have hres : (abcd f s d).1.toNat = (if 0x99 < sum.toNat then sum.toNat - 0xa0 else sum.toNat)
      % 256 := by
    have hmasked :
        (abcd f s d).1 = maskOutAbove .byte (if sum > 0x99 then sum - 0xa0 else sum) := by
      rw [hsum, hlow]
      exact congrArg (maskOutAbove .byte) (if_congr (carry_ne_zero _) rfl rfl)
    rw [hmasked, toNat_maskOutAbove]
    by_cases h : sum > 0x99
    · have h' : 0x99 < sum.toNat := UInt32.lt_iff_toNat_lt.mp h
      rw [if_pos h, if_pos h', UInt32.toNat_sub]
      simp only [UInt32.reduceToNat, Width.lanes]
      split at hsumNat <;> omega
    · have h' : ¬ 0x99 < sum.toNat := fun h' => h (UInt32.lt_iff_toNat_lt.mpr h')
      rw [if_neg h, if_neg h', Width.lanes, Nat.pow_one]
  rw [hres, hxs, ← toNat_xAs1]
  unfold unpack Packed
  by_cases h : sum > 0x99
  · have h' : 0x99 < sum.toNat := UInt32.lt_iff_toNat_lt.mp h
    rw [if_pos h', decide_eq_true h, Bool.toNat_true]
    split at hsumNat <;> omega
  · have h' : ¬ 0x99 < sum.toNat := fun h' => h (UInt32.lt_iff_toNat_lt.mpr h')
    rw [if_neg h', decide_eq_false h, Bool.toNat_false]
    split at hsumNat <;> omega

/-- The corrections of `sbcd`: the difference of two bytes of digits and the extend flag, and the
borrow. -/
theorem sbcd_number (f : Flags) {s d : UInt32} (hs : Packed s.toNat) (hd : Packed d.toNat) :
    unpack (sbcd f s d).1.toNat + unpack s.toNat + f.xs.toNat
        = unpack d.toNat + 100 * (sbcd f s d).2.xs.toNat ∧
      Packed (sbcd f s d).1.toNat := by
  have hx := toNat_xAs1_le f
  have hls := toNat_lowNibble s
  have hld := toNat_lowNibble d
  have hhs := toNat_highNibble s
  have hhd := toNat_highNibble d
  obtain ⟨hs0, hs1⟩ := hs
  obtain ⟨hd0, hd1⟩ := hd
  -- the low digits
  obtain ⟨low, hlow⟩ : ∃ u, u = lowNibble d - lowNibble s - f.xAs1 := ⟨_, rfl⟩
  have hlowNat : low.toNat
      = (d.toNat % 16 + 4294967296 - s.toNat % 16 - f.xAs1.toNat) % 4294967296 := by
    rw [hlow, UInt32.toNat_sub, UInt32.toNat_sub]
    omega
  -- both digits, with the borrow of the low ones
  obtain ⟨diff, hdiff⟩ : ∃ u, u = (if low > 9 then low - 6 else low)
      + (highNibble d - highNibble s) := ⟨_, rfl⟩
  have hdiffNat : diff.toNat = (low.toNat + 4294967296 - (if 9 < low.toNat then 6 else 0)
      + d.toNat / 16 * 16 + 4294967296 - s.toNat / 16 * 16) % 4294967296 := by
    rw [hdiff]
    by_cases h : low > 9
    · have h' : 9 < low.toNat := UInt32.lt_iff_toNat_lt.mp h
      rw [if_pos h, if_pos h', UInt32.toNat_add, UInt32.toNat_sub, UInt32.toNat_sub]
      simp only [UInt32.reduceToNat]
      omega
    · have h' : ¬ 9 < low.toNat := fun h' => h (UInt32.lt_iff_toNat_lt.mpr h')
      rw [if_neg h, if_neg h', UInt32.toNat_add, UInt32.toNat_sub]
      omega
  have hxs : (sbcd f s d).2.xs = decide (diff > 0x99) := by
    rw [hdiff, hlow]
    exact decide_eq_decide.mpr (carry_and _)
  have hres : (sbcd f s d).1.toNat = (if 0x99 < diff.toNat then diff.toNat + 0xa0 else diff.toNat)
      % 256 := by
    have hmasked : (sbcd f s d).1
        = maskOutAbove .byte (if diff > 0x99 then diff + 0xa0 else diff) := by
      rw [hdiff, hlow]
      exact congrArg (maskOutAbove .byte) (if_congr (carry_ne_zero _) rfl rfl)
    rw [hmasked, toNat_maskOutAbove]
    by_cases h : diff > 0x99
    · have h' : 0x99 < diff.toNat := UInt32.lt_iff_toNat_lt.mp h
      rw [if_pos h, if_pos h', UInt32.toNat_add]
      simp only [UInt32.reduceToNat, Width.lanes]
      omega
    · have h' : ¬ 0x99 < diff.toNat := fun h' => h (UInt32.lt_iff_toNat_lt.mpr h')
      rw [if_neg h, if_neg h', Width.lanes, Nat.pow_one]
  rw [hres, hxs, ← toNat_xAs1]
  unfold unpack Packed
  by_cases h : diff > 0x99
  · have h' : 0x99 < diff.toNat := UInt32.lt_iff_toNat_lt.mp h
    rw [if_pos h', decide_eq_true h, Bool.toNat_true]
    split at hdiffNat <;> omega
  · have h' : ¬ 0x99 < diff.toNat := fun h' => h (UInt32.lt_iff_toNat_lt.mpr h')
    rw [if_neg h', decide_eq_false h, Bool.toNat_false]
    split at hdiffNat <;> omega

/-! ### Long numbers -/

/-- The decimal number in the `k` bytes below an address of the core. -/
def Machine.decimalBelow (s : Machine n) (a : UInt32) (k : Nat) : Int :=
  Limbs.number (fun d => (unpack d : Int)) 100 s.ram 1 (ramPlace a) k

/-- The `k` bytes below an address of the core hold decimal digits. -/
def Machine.PackedBelow (s : Machine n) (a : UInt32) (k : Nat) : Prop :=
  ∀ j < k, Packed (s.ram (ramPlace a - (j + 1))).toNat

/-- What one byte of a decimal operation computes: `α` is 1 for an addition and -1 for a
subtraction, and `carry` the carry, or the negated borrow, that the extend flag stands for. -/
structure DecimalLaw (α : Int) (carry : Flags → Int) (alu : Arithmetic) : Prop where
  lt : ∀ f s d, (alu f s d).1.toNat < 256
  number : ∀ f s d, Packed s.toNat → Packed d.toNat →
    (unpack (alu f s d).1.toNat : Int) + 100 * carry (alu f s d).2
      = α * unpack s.toNat + unpack d.toNat + carry f
  packed : ∀ f s d, Packed s.toNat → Packed d.toNat → Packed (alu f s d).1.toNat
  ne : ∀ f s d, (alu f s d).2.ne = (f.ne || decide ((alu f s d).1 ≠ 0))
  cs : ∀ f s d, (alu f s d).2.cs = (alu f s d).2.xs

theorem abcd_law : DecimalLaw 1 (fun f => f.xs.toNat) abcd where
  lt f s d := by
    rw [abcd, toNat_maskOutAbove]
    exact Nat.mod_lt _ (by decide)
  number f s d hs hd := by
    rw [Int.one_mul]
    exact_mod_cast (abcd_number f hs hd).1
  packed f s d hs hd := (abcd_number f hs hd).2
  ne f s d := ne_of_or rfl
  cs f s d := rfl

theorem sbcd_law : DecimalLaw (-1) (fun f => -f.xs.toNat) sbcd where
  lt f s d := by
    rw [sbcd, toNat_maskOutAbove]
    exact Nat.mod_lt _ (by decide)
  number f s d hs hd := by
    have hcast : (unpack (sbcd f s d).1.toNat : Int) + unpack s.toNat + f.xs.toNat
        = unpack d.toNat + 100 * (sbcd f s d).2.xs.toNat := by
      exact_mod_cast (sbcd_number f hs hd).1
    linear_combination hcast
  packed f s d hs hd := (sbcd_number f hs hd).2
  ne f s d := ne_of_or rfl
  cs f s d := rfl

/-- What a loop of a decimal operation over blocks of `k` bytes leaves. -/
structure DecimalResult (α : Int) (carry : Flags → Int) (k : Nat) (s t : Core n) : Prop where
  number : t.machine.decimalBelow (s.cpu.dar (regA s.cpu.x)) k
      + 100 ^ k * carry t.cpu.flags
    = α * s.machine.decimalBelow (s.cpu.dar (regA s.cpu.y)) k
      + s.machine.decimalBelow (s.cpu.dar (regA s.cpu.x)) k + carry s.cpu.flags
  packed : t.machine.PackedBelow (s.cpu.dar (regA s.cpu.x)) k
  zero : t.cpu.flags.ne = false ↔
    s.cpu.flags.ne = false ∧ t.machine.decimalBelow (s.cpu.dar (regA s.cpu.x)) k = 0
  cs : 0 < k → t.cpu.flags.cs = t.cpu.flags.xs
  frame : ∀ i, i < ramPlace (s.cpu.dar (regA s.cpu.x)) - k
      ∨ ramPlace (s.cpu.dar (regA s.cpu.x)) ≤ i → t.machine.ram i = s.machine.ram i

theorem value_one (mem : Memory) (a : Nat) : value mem a 1 = (mem a).toNat := by
  rw [value_succ, value_zero, Nat.zero_mul, Nat.zero_add, Nat.add_zero]

section Long

variable {α : Int} {carry : Flags → Int} {alu : Arithmetic}

theorem Packed.toNat_ofNat {d : Nat} (h : Packed d) : (UInt32.ofNat d).toNat = d := by
  obtain ⟨-, hi⟩ := h
  rw [UInt32.toNat_ofNat']
  omega

theorem DecimalLaw.limbs_lt (law : DecimalLaw α carry alu) (f : Flags) (s d : Nat) :
    (alu.limbs f s d).1 < 256 ^ Width.byte.lanes := law.lt _ _ _

theorem DecimalLaw.limbs_number (law : DecimalLaw α carry alu) (f : Flags) {s d : Nat}
    (hs : Packed s) (hd : Packed d) :
    (unpack (alu.limbs f s d).1 : Int) + 100 * carry (alu.limbs f s d).2
      = α * unpack s + unpack d + carry f := by
  have hs' := hs.toNat_ofNat
  have hd' := hd.toNat_ofNat
  have hnumber := law.number f (UInt32.ofNat s) (UInt32.ofNat d) (by rwa [hs']) (by rwa [hd'])
  rwa [hs', hd'] at hnumber

theorem DecimalLaw.limbs_packed (law : DecimalLaw α carry alu) (f : Flags) {s d : Nat}
    (hs : Packed s) (hd : Packed d) : Packed (alu.limbs f s d).1 :=
  law.packed f _ _ (by rwa [hs.toNat_ofNat]) (by rwa [hd.toNat_ofNat])

theorem DecimalLaw.limbs_zero (law : DecimalLaw α carry alu) (f : Flags) (s d : Nat) :
    (alu.limbs f s d).2.ne = false ↔ f.ne = false ∧ (alu.limbs f s d).1 = 0 := by
  have hne := law.ne f (UInt32.ofNat s) (UInt32.ofNat d)
  have hzero : (alu.limbs f s d).1 = 0 ↔ (alu f (UInt32.ofNat s) (UInt32.ofNat d)).1 = 0 :=
    UInt32.toNat_inj (b := 0)
  rw [hzero, Arithmetic.limbs, hne]
  simp

/-- A block of digits, as limbs of one byte. -/
theorem packedBelow_iff (s : Machine n) (a : UInt32) (k : Nat) :
    s.PackedBelow a k ↔ ∀ j < k, Packed (value s.ram (ramPlace a - (j + 1) * 1) 1) := by
  simp only [value_one, Nat.mul_one]
  exact Iff.rfl

/-- A loop of a decimal operation over two blocks of digits in the RAM can be run, and computes
on the decimal numbers what the operation computes on bytes. -/
theorem decimal_chain (size : SoundRamSize n) (law : DecimalLaw α carry alu) {ui : Ui}
    (handler : Core n → Option (Core n))
    (body : ∀ s, handler s
      = memoryToMemory ui .byte alu (.natural .byte s.cpu.y) (.natural .byte s.cpu.x) s)
    {s : Core n} {k : Nat} (blocks : Blocks .byte k s)
    (packedSrc : s.machine.PackedBelow (s.cpu.dar (regA s.cpu.y)) k)
    (packedDst : s.machine.PackedBelow (s.cpu.dar (regA s.cpu.x)) k) :
    (∃ t, Chain handler k s t) ∧ ∀ t, Chain handler k s t → DecimalResult α carry k s t := by
  obtain ⟨distinct, mask, inSrc, inDst, disjoint⟩ := blocks
  obtain ⟨run, all⟩ := chain_pass size body distinct mask inSrc inDst (Nat.le_refl k)
  refine ⟨run, fun t h => ?_⟩
  have hpass := (all t h).blocks
  have fitsSrc := inSrc.le
  have fitsDst := inDst.le
  rw [packedBelow_iff] at packedSrc packedDst
  have hnumber := Limbs.number_pass alu.limbs _ _ (s.machine.ram, s.cpu.flags)
    (fun d => (unpack d : Int)) 100 law.limbs_lt (fun f _ _ hs hd => law.limbs_number f hs hd)
    fitsSrc fitsDst disjoint packedSrc packedDst
  have hpacked := Limbs.valid_pass alu.limbs _ _ (s.machine.ram, s.cpu.flags) law.limbs_lt
    (fun f _ _ hs hd => law.limbs_packed f hs hd) fitsSrc fitsDst disjoint packedSrc packedDst
    (Nat.le_refl k)
  have hzero := (Limbs.zero_pass alu.limbs (ramPlace (s.cpu.dar (regA s.cpu.y))) _
    (s.machine.ram, s.cpu.flags) (fun d => (unpack d : Int)) 100 (fun f => f.ne = false)
    law.limbs_lt law.limbs_zero
    (fun d => ⟨Int.natCast_nonneg _, Int.natCast_eq_zero.trans (unpack_eq_zero d)⟩)
    (by decide) fitsDst).1
  rw [← hpass] at hnumber hpacked hzero
  refine ⟨hnumber, (packedBelow_iff _ _ _).mpr hpacked, hzero, fun pos => ?_, fun i hi => ?_⟩
  · obtain ⟨j, rfl⟩ := Nat.exists_eq_succ_of_ne_zero pos.ne'
    have hflags := (Limbs.pass_last alu.limbs _ _ (s.machine.ram, s.cpu.flags) law.limbs_lt
      fitsSrc fitsDst disjoint).2
    rw [← hpass] at hflags
    rw [show t.cpu.flags = _ from hflags]
    exact law.cs _ _ _
  · have hframe := Limbs.pass_frame alu.limbs (ramPlace (s.cpu.dar (regA s.cpu.y))) _
      (s.machine.ram, s.cpu.flags) fitsDst (i := i) (by simpa [Width.lanes] using hi)
    rwa [← hpass] at hframe

end Long

/-- A number of decimal digits. -/
theorem Machine.PackedBelow.bounds {s : Machine n} {a : UInt32} {k : Nat}
    (h : s.PackedBelow a k) : 0 ≤ s.decimalBelow a k ∧ s.decimalBelow a k < 100 ^ k := by
  rw [packedBelow_iff] at h
  refine Limbs.number_lt _ _ fun j hj => ?_
  obtain ⟨lo, hi⟩ := h j hj
  unfold unpack
  omega

/-- Before a loop on two blocks of decimal digits. -/
def Core.beforeDecimal : Core ramSize :=
  .loaded { Cpu.initial with
    ir := 1
    dar := (Cpu.initial.dar.set 8 0x400004).set 9 0x400008 }
    [0x12, 0x34, 0x56, 0x78, 0x89, 0, 0, 1]

theorem blocks_beforeDecimal : Blocks .byte 4 Core.beforeDecimal where
  distinct := by decide
  addressMask := rfl
  src := by decide
  dst := by decide
  disjoint := by
    unfold ramPlace
    decide

theorem ram_beforeDecimal {i : Nat} (hi : i < 8) : Core.beforeDecimal.machine.ram i
    = [0x12, 0x34, 0x56, 0x78, 0x89, 0, 0, 1].getD i 0 := ram_loaded _ _ (by rw [ramSize]; omega)

theorem packed_beforeDecimal {a : UInt32} (ha : ramPlace a = 4 ∨ ramPlace a = 8) :
    Core.beforeDecimal.machine.PackedBelow a 4 := by
  intro j hj
  have all : ∀ i < 8,
      Packed ([0x12, 0x34, 0x56, 0x78, 0x89, 0, 0, 1].getD i (0 : UInt8)).toNat := by
    unfold Packed
    decide
  rw [ram_beforeDecimal (by omega)]
  exact all _ (by omega)

theorem ramPlace_beforeDecimal : ramPlace 0x400004 = 4 ∧ ramPlace 0x400008 = 8 := by
  unfold ramPlace
  decide

theorem decimal_beforeDecimal : Core.beforeDecimal.machine.decimalBelow 0x400004 4 = 12345678 ∧
    Core.beforeDecimal.machine.decimalBelow 0x400008 4 = 89000001 := by
  obtain ⟨dst, src⟩ := ramPlace_beforeDecimal
  rw [Machine.decimalBelow, Machine.decimalBelow, dst, src]
  simp only [Limbs.number, value_one]
  constructor <;>
    · iterate 4 rw [ram_beforeDecimal (by decide)]
      decide

end Kyacopycat
