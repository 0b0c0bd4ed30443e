import Mathlib.Algebra.Order.Ring.Nat
import Mathlib.Tactic.Ring

/-!
Big-endian numbers in a memory of bytes.

`value mem a k` is the number in the `k` bytes at `a`, and `poke mem a k v` the memory after
`v` has been stored there.

* `value_poke`: reading back what was stored.
* `value_poke_of_disjoint`: a store leaves the numbers beside it alone.
* `poke_append`: a store in two parts.
-/

namespace BigEndian

/-- A memory of bytes. -/
abbrev Memory := Nat → UInt8

/-- The number in the `k` bytes at `a`. -/
def value (mem : Memory) (a : Nat) : Nat → Nat
  | 0 => 0
  | k + 1 => value mem a k * 256 + (mem (a + k)).toNat

/-- The memory after `v` has been stored in the `k` bytes at `a`; digits of `v` that do not
fit are dropped. -/
def poke (mem : Memory) (a k v : Nat) : Memory := fun i =>
  if a ≤ i ∧ i < a + k then UInt8.ofNat (v / 256 ^ (a + k - 1 - i)) else mem i

variable {mem mem' : Memory} {a b j k v w : Nat}

@[simp] theorem value_zero : value mem a 0 = 0 := rfl

theorem value_succ : value mem a (k + 1) = value mem a k * 256 + (mem (a + k)).toNat := rfl

theorem value_lt (mem : Memory) (a k : Nat) : value mem a k < 256 ^ k := by
  induction k with
  | zero => simp
  | succ k ih =>
    have hbyte := UInt8.toNat_lt (mem (a + k))
    rw [value_succ, Nat.pow_succ]
    omega

/-- Only the bytes of a number matter. -/
theorem value_congr (h : ∀ i, a ≤ i → i < a + k → mem i = mem' i) :
    value mem a k = value mem' a k := by
  induction k with
  | zero => rfl
  | succ k ih =>
    rw [value_succ, value_succ, ih fun i lo hi => h i lo (by omega),
      h (a + k) (by omega) (by omega)]

theorem value_zeros (a k : Nat) : value (fun _ => 0) a k = 0 := by
  induction k with
  | zero => rfl
  | succ k ih => rw [value_succ, ih, UInt8.toNat_zero, Nat.zero_mul]

/-- A number in two parts. -/
theorem value_append (mem : Memory) (a j k : Nat) :
    value mem a (j + k) = value mem a j * 256 ^ k + value mem (a + j) k := by
  induction k with
  | zero => simp
  | succ k ih =>
    rw [← Nat.add_assoc, value_succ, ih, value_succ, Nat.pow_succ, Nat.add_assoc]
    ring

/-! ### Stores -/

theorem poke_of_mem (mem : Memory) (v : Nat) {i : Nat} (lo : a ≤ i) (hi : i < a + k) :
    poke mem a k v i = UInt8.ofNat (v / 256 ^ (a + k - 1 - i)) :=
  if_pos ⟨lo, hi⟩

theorem poke_of_not_mem (mem : Memory) (v : Nat) {i : Nat} (h : i < a ∨ a + k ≤ i) :
    poke mem a k v i = mem i :=
  if_neg (by omega)

/-- The first bytes of a number that has been stored are its leading digits. -/
theorem value_poke_first (mem : Memory) (a k v : Nat) {j : Nat} (h : j ≤ k) :
    value (poke mem a k v) a j = v / 256 ^ (k - j) % 256 ^ j := by
  induction j with
  | zero => simp [Nat.mod_one]
  | succ j ih =>
    have hdigit : a + k - 1 - (a + j) = k - (j + 1) := by omega
    have hpow : 256 ^ (k - j) = 256 ^ (k - (j + 1)) * 256 := by
      rw [← Nat.pow_succ]
      congr 1
      omega
    have hsucc : 256 ^ (j + 1) = 256 * 256 ^ j := Nat.pow_succ'
    rw [value_succ, ih (by omega), poke_of_mem _ _ (by omega) (by omega), hdigit,
      UInt8.toNat_ofNat', hpow, ← Nat.div_div_eq_div_mul, hsucc, Nat.mod_mul]
    omega

/-- Reading back what was stored. -/
theorem value_poke (mem : Memory) (a k v : Nat) : value (poke mem a k v) a k = v % 256 ^ k := by
  rw [value_poke_first mem a k v (Nat.le_refl k), Nat.sub_self, Nat.pow_zero, Nat.div_one]

/-- A number is its digits. -/
theorem value_eq_of_digits {x : Nat} (lt : x < 256 ^ k)
    (digits : ∀ j < k, mem (a + j) = UInt8.ofNat (x / 256 ^ (k - 1 - j))) :
    value mem a k = x := by
  have hpoke : value mem a k = value (poke mem a k x) a k := by
    refine value_congr fun i lo hi => ?_
    obtain ⟨j, rfl⟩ := Nat.exists_eq_add_of_le lo
    rw [poke_of_mem _ _ lo hi, digits j (by omega)]
    congr 3
    omega
  rw [hpoke, value_poke, Nat.mod_eq_of_lt lt]

/-- A store leaves the numbers beside it alone. -/
theorem value_poke_of_disjoint (mem : Memory) (v : Nat) (h : b + j ≤ a ∨ a + k ≤ b) :
    value (poke mem a k v) b j = value mem b j :=
  value_congr fun _ _ _ => poke_of_not_mem mem v (by omega)

/-- Stores beside each other may change places. -/
theorem poke_comm (h : b + j ≤ a ∨ a + k ≤ b) :
    poke (poke mem a k v) b j w = poke (poke mem b j w) a k v := by
  funext i
  by_cases hb : b ≤ i ∧ i < b + j
  · obtain ⟨lo, hi⟩ := hb
    rw [poke_of_mem _ _ lo hi, poke_of_not_mem _ _ (by omega), poke_of_mem _ _ lo hi]
  · rw [poke_of_not_mem _ _ (by omega)]
    by_cases ha : a ≤ i ∧ i < a + k
    · obtain ⟨lo, hi⟩ := ha
      rw [poke_of_mem _ _ lo hi, poke_of_mem _ _ lo hi]
    · rw [poke_of_not_mem _ _ (by omega), poke_of_not_mem _ _ (by omega),
        poke_of_not_mem _ _ (by omega)]

/-- A store in two parts, the low part first. -/
theorem poke_append (mem : Memory) (a j k v : Nat) :
    poke (poke mem (a + j) k v) a j (v / 256 ^ k) = poke mem a (j + k) v := by
  funext i
  by_cases hlow : a ≤ i ∧ i < a + j
  · obtain ⟨lo, hi⟩ := hlow
    rw [poke_of_mem _ _ lo hi, poke_of_mem _ _ lo (by omega), Nat.div_div_eq_div_mul,
      ← Nat.pow_add]
    congr 3
    omega
  rw [poke_of_not_mem _ _ (by omega)]
  by_cases hhigh : a + j ≤ i ∧ i < a + j + k
  · obtain ⟨lo, hi⟩ := hhigh
    rw [poke_of_mem _ _ lo hi, poke_of_mem _ _ (by omega) (by omega)]
    congr 3
    omega
  · rw [poke_of_not_mem _ _ (by omega), poke_of_not_mem _ _ (by omega)]

/-- Only the digits that fit matter. -/
theorem poke_mod (mem : Memory) (a k v : Nat) : poke mem a k (v % 256 ^ k) = poke mem a k v := by
  funext i
  by_cases h : a ≤ i ∧ i < a + k
  · obtain ⟨lo, hi⟩ := h
    have hsplit : 256 ^ k = 256 ^ (a + k - 1 - i) * (256 * 256 ^ (i - a)) := by
      rw [← Nat.pow_succ', ← Nat.pow_add]
      congr 1
      omega
    rw [poke_of_mem _ _ lo hi, poke_of_mem _ _ lo hi]
    apply UInt8.toNat_inj.mp
    rw [UInt8.toNat_ofNat', UInt8.toNat_ofNat', hsplit, Nat.mod_mul_right_div_self,
      Nat.mod_mul_right_mod]
  · rw [poke_of_not_mem _ _ (by omega), poke_of_not_mem _ _ (by omega)]

end BigEndian
