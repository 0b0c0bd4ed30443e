import Kyacopycat.Lib.BigEndian
import Mathlib.Data.Nat.Digits.Defs

/-!
Blocks of numbers of `l` bytes in a memory of bytes.

Numbers stored one below the other are the digits, the first one the lowest, of one number over
the whole block.

* `down_eq`, `up_eq`: a block that is stored number by number, from its end down or from its
  start up, is stored as one number.
* `upward_of_value`: a block read from its start up gives the digits back, in reverse.
-/

namespace Block

open BigEndian

/-- Store numbers of `l` bytes, each right below the one before, the first below `a`. -/
def down (l : Nat) : Memory → Nat → List Nat → Memory
  | mem, _, [] => mem
  | mem, a, v :: vs => down l (poke mem (a - l) l v) (a - l) vs

/-- Store numbers of `l` bytes, each right above the one before, the first at `a`. -/
def up (l : Nat) : Memory → Nat → List Nat → Memory
  | mem, _, [] => mem
  | mem, a, v :: vs => up l (poke mem a l v) (a + l) vs

/-- The `k` numbers of `l` bytes from `a` upwards. -/
def upward (l : Nat) (mem : Memory) (a : Nat) : Nat → List Nat
  | 0 => []
  | k + 1 => value mem a l :: upward l mem (a + l) k

/-- The number that has these digits of `l` bytes, the first one the lowest. -/
def number (l : Nat) (vs : List Nat) : Nat := Nat.ofDigits (256 ^ l) vs

variable {l : Nat} {mem : Memory} {a k : Nat} {vs : List Nat}

theorem number_cons (v : Nat) (vs : List Nat) :
    number l (v :: vs) = v + 256 ^ l * number l vs := by
  simp [number, Nat.ofDigits_cons]

theorem number_lt (vs : List Nat) (h : ∀ v ∈ vs, v < 256 ^ l) :
    number l vs < 256 ^ (vs.length * l) := by
  induction vs with
  | nil => simp [number]
  | cons v vs ih =>
    have hv := h v List.mem_cons_self
    have hvs := ih fun w hw => h w (List.mem_cons_of_mem v hw)
    calc number l (v :: vs) = v + 256 ^ l * number l vs := number_cons v vs
      _ < 256 ^ l + 256 ^ l * number l vs := by omega
      _ = 256 ^ l * (number l vs + 1) := by ring
      _ ≤ 256 ^ l * 256 ^ (vs.length * l) := Nat.mul_le_mul_left _ hvs
      _ = 256 ^ ((v :: vs).length * l) := by rw [← Nat.pow_add, List.length_cons]; ring_nf

theorem number_append (vs ws : List Nat) :
    number l (vs ++ ws) = number l vs + 256 ^ (vs.length * l) * number l ws := by
  rw [number, Nat.ofDigits_append, ← number, ← number, ← Nat.pow_mul, Nat.mul_comm l]

/-- A block stored from its end down. -/
theorem down_eq (h : ∀ v ∈ vs, v < 256 ^ l) (fits : vs.length * l ≤ a) :
    down l mem a vs = poke mem (a - vs.length * l) (vs.length * l) (number l vs) := by
  induction vs generalizing mem a with
  | nil =>
    funext i
    rw [poke_of_not_mem _ _ (by simp; omega)]
    rfl
  | cons v vs ih =>
    have hsplit : (v :: vs).length * l = vs.length * l + l := by rw [List.length_cons]; ring
    have hv := h v List.mem_cons_self
    have hbase : a - (v :: vs).length * l = a - l - vs.length * l := by omega
    have htop : a - l - vs.length * l + vs.length * l = a - l := by omega
    -- the number before it is the low part of the block
    have happend := poke_append mem (a - l - vs.length * l) (vs.length * l) l (number l (v :: vs))
    have hdiv : number l (v :: vs) / 256 ^ l = number l vs := by
      rw [number_cons, Nat.add_mul_div_left _ _ (Nat.pow_pos (by decide)), Nat.div_eq_of_lt hv,
        Nat.zero_add]
    have hmod : number l (v :: vs) % 256 ^ l = v := by
      rw [number_cons, Nat.add_mul_mod_self_left, Nat.mod_eq_of_lt hv]
    rw [htop, ← poke_mod _ _ l, hdiv, hmod] at happend
    rw [down, ih (fun w hw => h w (List.mem_cons_of_mem v hw)) (by omega), hbase, hsplit, happend]

/-- A block stored from its start up. -/
theorem up_eq (h : ∀ v ∈ vs, v < 256 ^ l) :
    up l mem a vs = poke mem a (vs.length * l) (number l vs.reverse) := by
  induction vs generalizing mem a with
  | nil =>
    funext i
    rw [poke_of_not_mem _ _ (by simp; omega)]
    rfl
  | cons v vs ih =>
    have hsplit : (v :: vs).length * l = l + vs.length * l := by rw [List.length_cons]; ring
    have hvs : ∀ w ∈ vs, w < 256 ^ l := fun w hw => h w (List.mem_cons_of_mem v hw)
    have hlow : number l vs.reverse < 256 ^ (vs.length * l) := by
      have hlt := number_lt vs.reverse fun w hw => hvs w (List.mem_reverse.mp hw)
      rwa [List.length_reverse] at hlt
    have hnumber : number l (v :: vs).reverse
        = number l vs.reverse + 256 ^ (vs.length * l) * v := by
      rw [List.reverse_cons, number_append, List.length_reverse]
      simp [number]
    have hdiv : number l (v :: vs).reverse / 256 ^ (vs.length * l) = v := by
      rw [hnumber, Nat.add_mul_div_left _ _ (Nat.pow_pos (by decide)), Nat.div_eq_of_lt hlow,
        Nat.zero_add]
    have hmod : number l (v :: vs).reverse % 256 ^ (vs.length * l) = number l vs.reverse := by
      rw [hnumber, Nat.add_mul_mod_self_left, Nat.mod_eq_of_lt hlow]
    have happend := poke_append mem a l (vs.length * l) (number l (v :: vs).reverse)
    rw [← poke_mod _ (a + l), hdiv, hmod] at happend
    have hswap : poke (poke mem a l v) (a + l) (vs.length * l) (number l vs.reverse)
        = poke (poke mem (a + l) (vs.length * l) (number l vs.reverse)) a l v :=
      poke_comm (.inr (Nat.le_refl _))
    rw [up, ih hvs, hsplit, hswap, happend]

/-- The digits of a block are less than the base. -/
theorem upward_lt : ∀ v ∈ upward l mem a k, v < 256 ^ l := by
  induction k generalizing a with
  | zero => exact fun v hv => absurd hv List.not_mem_nil
  | succ k ih =>
    intro v hv
    rcases List.mem_cons.mp hv with rfl | hv
    · exact value_lt mem a l
    · exact ih v hv

theorem length_upward : (upward l mem a k).length = k := by
  induction k generalizing a with
  | zero => rfl
  | succ k ih => rw [upward, List.length_cons, ih]

/-- A block as one number. -/
theorem value_eq_number : value mem a (k * l) = number l (upward l mem a k).reverse := by
  induction k generalizing a with
  | zero => simp [upward, number]
  | succ k ih =>
    have hsplit : (k + 1) * l = l + k * l := by ring
    rw [hsplit, value_append, ih, upward, List.reverse_cons, number_append, List.length_reverse,
      length_upward]
    simp [number]
    ring

/-- A block read from its start up gives the digits back, in reverse. -/
theorem upward_of_value (vs : List Nat) (hl : 0 < l) (h : ∀ v ∈ vs, v < 256 ^ l)
    (here : value mem a (vs.length * l) = number l vs) :
    upward l mem a vs.length = vs.reverse := by
  rw [value_eq_number] at here
  have hbase : 1 < 256 ^ l := Nat.one_lt_pow hl.ne' (by decide)
  rw [← List.reverse_reverse (upward l mem a vs.length)]
  refine congrArg List.reverse (Nat.ofDigits_inj_of_len_eq hbase ?_ (fun v hv => ?_) h here)
  · rw [List.length_reverse, length_upward]
  · exact upward_lt v (List.mem_reverse.mp hv)

end Block
