import Kyacopycat.Lib.BigEndian
import Mathlib.Algebra.Order.Ring.Int
import Mathlib.Tactic.LinearCombination

/-!
Arithmetic on long numbers in memory, limb by limb.

A long number is a block of limbs of `l` bytes each, the most significant limb first. `pass`
takes an operation on limbs over two blocks from their ends down and leaves its results in the
second block; the operation carries flags of any type from limb to limb.

* `number_pass`: a law that holds of the operation on single limbs, with a carry between the
  flags, holds of the long numbers.
* `zero_pass`: a flag that collects whether the results were zero says so of the long number.
* `pass_frame`, `value_pass_src`: nothing but the second block changes.
-/

namespace Limbs

open BigEndian

variable {γ : Type}

/-- An operation on limbs: from the flags, the source and the destination to the result and the
flags. -/
abbrev Operation (γ : Type) := γ → Nat → Nat → Nat × γ

/-- The operation on the limbs at `src` and `dst`. -/
def step (op : Operation γ) (l src dst : Nat) (st : Memory × γ) : Memory × γ :=
  let r := op st.2 (value st.1 src l) (value st.1 dst l)
  (poke st.1 dst l r.1, r.2)

/-- The operation over the last `k` limbs of the blocks that end at `src` and `dst`. -/
def pass (op : Operation γ) (l src dst : Nat) : Nat → Memory × γ → Memory × γ
  | 0, st => st
  | k + 1, st => step op l (src - (k + 1) * l) (dst - (k + 1) * l) (pass op l src dst k st)

/-- The number in the last `k` limbs of a block that ends at `a`, each limb a digit to base
`b`. -/
def number (digit : Nat → Int) (b : Int) (mem : Memory) (l a : Nat) : Nat → Int
  | 0 => 0
  | k + 1 => digit (value mem (a - (k + 1) * l) l) * b ^ k + number digit b mem l a k

/-- The first limb of a block, above the rest. -/
theorem value_top {mem : Memory} {l a k : Nat} (h : (k + 1) * l ≤ a) :
    value mem (a - (k + 1) * l) ((k + 1) * l)
      = value mem (a - (k + 1) * l) l * 256 ^ (k * l) + value mem (a - k * l) (k * l) := by
  have hsplit : (k + 1) * l = l + k * l := by ring
  have hlow : a - (l + k * l) + l = a - k * l := by omega
  rw [hsplit, value_append, hlow]

/-- With the limbs as binary digits, the number is the one in the bytes of the block. -/
theorem number_value {mem : Memory} {l a k : Nat} (h : k * l ≤ a) :
    number (fun d => (d : Int)) (256 ^ l) mem l a k = value mem (a - k * l) (k * l) := by
  induction k with
  | zero => simp [number]
  | succ k ih =>
    have hsplit : (k + 1) * l = l + k * l := by ring
    rw [number, ih (by omega), value_top h, ← pow_mul, Nat.mul_comm l k]
    push_cast
    ring

/-- A number of `k` digits. -/
theorem number_lt (digit : Nat → Int) (b : Int) {mem : Memory} {l a k : Nat}
    (digits : ∀ j < k, 0 ≤ digit (value mem (a - (j + 1) * l) l)
      ∧ digit (value mem (a - (j + 1) * l) l) < b) :
    0 ≤ number digit b mem l a k ∧ number digit b mem l a k < b ^ k := by
  induction k with
  | zero => simp [number]
  | succ k ih =>
    obtain ⟨lo, hi⟩ := ih fun j hj => digits j (by omega)
    obtain ⟨hdigit, hlt⟩ := digits k (Nat.lt_succ_self k)
    have hpow : 0 ≤ b ^ k := by omega
    constructor
    · exact Int.add_nonneg (Int.mul_nonneg hdigit hpow) lo
    · calc number digit b mem l a (k + 1)
          < digit (value mem (a - (k + 1) * l) l) * b ^ k + b ^ k := by rw [number]; omega
        _ = (digit (value mem (a - (k + 1) * l) l) + 1) * b ^ k := by ring
        _ ≤ b * b ^ k := Int.mul_le_mul_of_nonneg_right hlt hpow
        _ = b ^ (k + 1) := by ring

variable (op : Operation γ) {l : Nat} (src dst : Nat) {k : Nat} (st : Memory × γ)

theorem pass_succ :
    pass op l src dst (k + 1) st
      = step op l (src - (k + 1) * l) (dst - (k + 1) * l) (pass op l src dst k st) := rfl

theorem step_fst : (step op l src dst st).1
    = poke st.1 dst l (op st.2 (value st.1 src l) (value st.1 dst l)).1 := rfl

theorem step_snd : (step op l src dst st).2
    = (op st.2 (value st.1 src l) (value st.1 dst l)).2 := rfl

/-! ### What a pass leaves alone -/

/-- Only the bytes of the second block change. -/
theorem pass_frame (fits : k * l ≤ dst) {i : Nat} (h : i < dst - k * l ∨ dst ≤ i) :
    (pass op l src dst k st).1 i = st.1 i := by
  induction k with
  | zero => rfl
  | succ k ih =>
    have hsplit : (k + 1) * l = k * l + l := by ring
    rw [pass_succ, step_fst, poke_of_not_mem _ _ (by omega), ih (by omega) (by omega)]

/-- A limb of the first block, when the blocks do not overlap. -/
theorem value_pass_src {m j : Nat} (hk : k ≤ m) (hj : j < m) (fitsSrc : m * l ≤ src)
    (fitsDst : m * l ≤ dst) (disjoint : src ≤ dst - m * l ∨ dst ≤ src - m * l) :
    value (pass op l src dst k st).1 (src - (j + 1) * l) l = value st.1 (src - (j + 1) * l) l := by
  have hkl : k * l ≤ m * l := Nat.mul_le_mul_right l hk
  have hjl : (j + 1) * l ≤ m * l := Nat.mul_le_mul_right l hj
  have hsplit : (j + 1) * l = j * l + l := by ring
  exact value_congr fun i lo hi => pass_frame op src dst st (by omega) (by omega)

/-- A limb of the second block that the pass has not reached. -/
theorem value_pass_dst {j : Nat} (hj : k ≤ j) (fits : (j + 1) * l ≤ dst) :
    value (pass op l src dst k st).1 (dst - (j + 1) * l) l = value st.1 (dst - (j + 1) * l) l := by
  have hkl : k * l ≤ j * l := Nat.mul_le_mul_right l hj
  have hsplit : (j + 1) * l = j * l + l := by ring
  exact value_congr fun i lo hi => pass_frame op src dst st (by omega) (by omega)

/-- The limbs a pass has been over stay as it has left them. -/
theorem number_step (digit : Nat → Int) (b : Int) {mem : Memory} {r m : Nat}
    (fits : (k + 1) * l ≤ dst) (hm : m ≤ k) :
    number digit b (poke mem (dst - (k + 1) * l) l r) l dst m = number digit b mem l dst m := by
  induction m with
  | zero => rfl
  | succ m ih =>
    have hml : (m + 1) * l ≤ k * l := Nat.mul_le_mul_right l hm
    have hsplit : (k + 1) * l = k * l + l := by ring
    have hsplit' : (m + 1) * l = m * l + l := by ring
    rw [number, number, ih (by omega), value_poke_of_disjoint _ _ (by omega)]

/-! ### What a pass computes -/

/-- The last step of a pass: its operation, on limbs as they were before the pass, gives the
first limb of the result and the flags. -/
theorem pass_last (fits : ∀ f s d, (op f s d).1 < 256 ^ l) (fitsSrc : (k + 1) * l ≤ src)
    (fitsDst : (k + 1) * l ≤ dst)
    (disjoint : src ≤ dst - (k + 1) * l ∨ dst ≤ src - (k + 1) * l) :
    value (pass op l src dst (k + 1) st).1 (dst - (k + 1) * l) ((k + 1) * l)
        = (op (pass op l src dst k st).2 (value st.1 (src - (k + 1) * l) l)
            (value st.1 (dst - (k + 1) * l) l)).1 * 256 ^ (k * l)
          + value (pass op l src dst k st).1 (dst - k * l) (k * l) ∧
      (pass op l src dst (k + 1) st).2
        = (op (pass op l src dst k st).2 (value st.1 (src - (k + 1) * l) l)
            (value st.1 (dst - (k + 1) * l) l)).2 := by
  have hsrc := value_pass_src op src dst st (Nat.le_succ k) (Nat.lt_succ_self k) fitsSrc fitsDst
    disjoint
  have hdst := value_pass_dst op src dst st (Nat.le_refl k) fitsDst
  have hsplit : (k + 1) * l = k * l + l := by ring
  constructor
  · rw [value_top fitsDst, pass_succ, step_fst, hsrc, hdst, value_poke,
      Nat.mod_eq_of_lt (fits _ _ _), value_poke_of_disjoint _ _ (by omega)]
  · rw [pass_succ, step_snd, hsrc, hdst]

section Law

variable (digit : Nat → Int) (b : Int)

/-- The result of a step, in the block. -/
theorem number_pass_succ (fits : ∀ f s d, (op f s d).1 < 256 ^ l) (fitsDst : (k + 1) * l ≤ dst) :
    number digit b (pass op l src dst (k + 1) st).1 l dst (k + 1)
      = digit (op (pass op l src dst k st).2
            (value (pass op l src dst k st).1 (src - (k + 1) * l) l)
            (value (pass op l src dst k st).1 (dst - (k + 1) * l) l)).1 * b ^ k
          + number digit b (pass op l src dst k st).1 l dst k := by
  rw [number, pass_succ, step_fst, value_poke, Nat.mod_eq_of_lt (fits _ _ _),
    number_step dst digit b fitsDst (Nat.le_refl k)]

/-- A law of single limbs is a law of long numbers. -/
theorem number_pass {Valid : Nat → Prop} {carry : γ → Int} {α : Int}
    (fits : ∀ f s d, (op f s d).1 < 256 ^ l)
    (law : ∀ f s d, Valid s → Valid d →
      digit (op f s d).1 + b * carry (op f s d).2 = α * digit s + digit d + carry f)
    (fitsSrc : k * l ≤ src) (fitsDst : k * l ≤ dst)
    (disjoint : src ≤ dst - k * l ∨ dst ≤ src - k * l)
    (validSrc : ∀ j < k, Valid (value st.1 (src - (j + 1) * l) l))
    (validDst : ∀ j < k, Valid (value st.1 (dst - (j + 1) * l) l)) :
    number digit b (pass op l src dst k st).1 l dst k + b ^ k * carry (pass op l src dst k st).2
      = α * number digit b st.1 l src k + number digit b st.1 l dst k + carry st.2 := by
  -- over the limbs the pass has been over, inside the blocks of all `k` limbs
  suffices h : ∀ m ≤ k,
      number digit b (pass op l src dst m st).1 l dst m
          + b ^ m * carry (pass op l src dst m st).2
        = α * number digit b st.1 l src m + number digit b st.1 l dst m + carry st.2 from
    h k (Nat.le_refl k)
  intro m hm
  induction m with
  | zero => simp [number, pass]
  | succ m ih =>
    have hml : (m + 1) * l ≤ k * l := Nat.mul_le_mul_right l hm
    have hsrc := value_pass_src op src dst st (k := m) (j := m) (by omega) hm fitsSrc fitsDst
      disjoint
    have hdst := value_pass_dst op src dst st (l := l) (Nat.le_refl m) (by omega)
    have hlaw := law (pass op l src dst m st).2 _ _ (validSrc m (by omega)) (validDst m (by omega))
    have hcarry : (pass op l src dst (m + 1) st).2
        = (op (pass op l src dst m st).2 (value st.1 (src - (m + 1) * l) l)
            (value st.1 (dst - (m + 1) * l) l)).2 := by
      rw [pass_succ, step_snd, hsrc, hdst]
    rw [number_pass_succ op src dst st digit b fits (by omega), hsrc, hdst, hcarry, number, number]
    have ih := ih (by omega)
    calc _ = ((digit _ + b * carry _) * b ^ m)
          + (number digit b (pass op l src dst m st).1 l dst m) := by ring
      _ = _ := by
        rw [hlaw]
        linear_combination ih

/-- Results of valid limbs are valid. -/
theorem valid_pass {Valid : Nat → Prop} (fits : ∀ f s d, (op f s d).1 < 256 ^ l)
    (closed : ∀ f s d, Valid s → Valid d → Valid (op f s d).1)
    (fitsSrc : k * l ≤ src) (fitsDst : k * l ≤ dst)
    (disjoint : src ≤ dst - k * l ∨ dst ≤ src - k * l)
    (validSrc : ∀ j < k, Valid (value st.1 (src - (j + 1) * l) l))
    (validDst : ∀ j < k, Valid (value st.1 (dst - (j + 1) * l) l)) {m : Nat} (hm : m ≤ k) :
    ∀ j < m, Valid (value (pass op l src dst m st).1 (dst - (j + 1) * l) l) := by
  induction m with
  | zero => exact fun j hj => absurd hj (Nat.not_lt_zero j)
  | succ m ih =>
    intro j hj
    have hml : (m + 1) * l ≤ k * l := Nat.mul_le_mul_right l hm
    have hsplit : (m + 1) * l = m * l + l := by ring
    rcases Nat.lt_succ_iff_lt_or_eq.mp hj with hlt | rfl
    · -- a limb the pass had been over before
      have hjl : (j + 1) * l ≤ m * l := Nat.mul_le_mul_right l hlt
      have hsplit' : (j + 1) * l = j * l + l := by ring
      rw [pass_succ, step_fst, value_poke_of_disjoint _ _ (by omega)]
      exact ih (by omega) j hlt
    · have hsrc := value_pass_src op src dst st (k := j) (j := j) (by omega) hm fitsSrc fitsDst
        disjoint
      have hdst := value_pass_dst op src dst st (l := l) (Nat.le_refl j) (by omega)
      rw [pass_succ, step_fst, value_poke, Nat.mod_eq_of_lt (fits _ _ _), hsrc, hdst]
      exact closed _ _ _ (validSrc j (by omega)) (validDst j (by omega))

/-- A flag that collects whether the results were zero. -/
theorem zero_pass (zero : γ → Prop) (fits : ∀ f s d, (op f s d).1 < 256 ^ l)
    (law : ∀ f s d, zero (op f s d).2 ↔ zero f ∧ (op f s d).1 = 0)
    (digits : ∀ d, 0 ≤ digit d ∧ (digit d = 0 ↔ d = 0)) (base : 0 < b) (fitsDst : k * l ≤ dst) :
    (zero (pass op l src dst k st).2 ↔
        zero st.2 ∧ number digit b (pass op l src dst k st).1 l dst k = 0) ∧
      0 ≤ number digit b (pass op l src dst k st).1 l dst k := by
  induction k with
  | zero => simp [number, pass]
  | succ k ih =>
    have hkl : k * l ≤ (k + 1) * l := Nat.mul_le_mul_right l (Nat.le_succ k)
    obtain ⟨iff, nonneg⟩ := ih (by omega)
    rw [number_pass_succ op src dst st digit b fits fitsDst, pass_succ, step_snd]
    have hlaw := law (pass op l src dst k st).2
      (value (pass op l src dst k st).1 (src - (k + 1) * l) l)
      (value (pass op l src dst k st).1 (dst - (k + 1) * l) l)
    generalize op (pass op l src dst k st).2
      (value (pass op l src dst k st).1 (src - (k + 1) * l) l)
      (value (pass op l src dst k st).1 (dst - (k + 1) * l) l) = r at hlaw ⊢
    obtain ⟨hdigit, hdigit0⟩ := digits r.1
    have hpow : 0 < b ^ k := Int.pow_pos base
    have hmul : 0 ≤ digit r.1 * b ^ k := Int.mul_nonneg hdigit hpow.le
    refine ⟨?_, by omega⟩
    rw [hlaw, iff, ← hdigit0]
    constructor
    · rintro ⟨⟨hzero, hlow⟩, hhigh⟩
      exact ⟨hzero, by rw [hhigh, hlow]; simp⟩
    · rintro ⟨hzero, hsum⟩
      have hhigh : digit r.1 * b ^ k = 0 := by omega
      have hlow : number digit b (pass op l src dst k st).1 l dst k = 0 := by omega
      exact ⟨⟨hzero, hlow⟩, (Int.mul_eq_zero.mp hhigh).resolve_right hpow.ne'⟩

end Law

end Limbs
