import Mathlib.Algebra.Order.Ring.Int
import Mathlib.Tactic.LinearCombination
import Mathlib.Tactic.Ring

/-!
Two's complement numbers in a word of `2 * h` values.

The signed reading of a word is `Int.bmod`: words from `h` on, those with the sign bit set,
are negative.

* `exact_add`, `exact_sub`: when the signed result of an addition or a subtraction with carry
  is the sum or the difference of the signed operands, by the sign bits alone.
* `less_iff`: the sign of a difference and its overflow decide the signed order.
* `bmod_append`, `exact_append`: numbers of several words.
-/

namespace TwosComplement

variable {h s d x r : Nat}

/-- The signed reading of a word. -/
theorem bmod_eq (lt : r < 2 * h) : Int.bmod r (2 * h) = if r < h then (r : Int) else r - 2 * h := by
  have hmod : (r : Int) % (2 * h : Nat) = r := Int.emod_eq_of_lt (by omega) (by omega)
  rw [Int.bmod_def, hmod]
  split <;> split <;> omega

/-- An addition with carry is exact unless both operands differ in sign from the result. -/
theorem exact_add (hs : s < 2 * h) (hd : d < 2 * h) (hr : r < 2 * h) (hx : x ≤ 1)
    (sum : r = s + d + x ∨ r + 2 * h = s + d + x) :
    Int.bmod r (2 * h) = Int.bmod s (2 * h) + Int.bmod d (2 * h) + x ↔
      ¬ (¬ (h ≤ s ↔ h ≤ r) ∧ ¬ (h ≤ d ↔ h ≤ r)) := by
  rw [bmod_eq hs, bmod_eq hd, bmod_eq hr]
  split <;> split <;> split <;> omega

/-- A subtraction with borrow is exact unless the result and the subtrahend differ in sign from
the minuend. -/
theorem exact_sub (hs : s < 2 * h) (hd : d < 2 * h) (hr : r < 2 * h) (hx : x ≤ 1)
    (difference : r + s + x = d ∨ r + s + x = d + 2 * h) :
    Int.bmod r (2 * h) = Int.bmod d (2 * h) - Int.bmod s (2 * h) - x ↔
      ¬ (¬ (h ≤ s ↔ h ≤ d) ∧ ¬ (h ≤ r ↔ h ≤ d)) := by
  rw [bmod_eq hs, bmod_eq hd, bmod_eq hr]
  split <;> split <;> split <;> omega

/-- The sign of a difference, turned round if the subtraction is not exact, decides the signed
order. -/
theorem less_iff (hs : s < 2 * h) (hd : d < 2 * h) (hr : r < 2 * h)
    (difference : r + s = d ∨ r + s = d + 2 * h) :
    Int.bmod d (2 * h) < Int.bmod s (2 * h) ↔
      (h ≤ r ↔ Int.bmod r (2 * h) = Int.bmod d (2 * h) - Int.bmod s (2 * h)) := by
  rw [bmod_eq hs, bmod_eq hd, bmod_eq hr]
  split <;> split <;> split <;> omega

/-- The signed reading of a number of several words is that of its first word, with the rest
below it. -/
theorem bmod_append {m low : Nat} (hr : r < 2 * h) (hlow : low < m) :
    Int.bmod (r * m + low : Nat) (2 * (h * m)) = Int.bmod r (2 * h) * m + low := by
  have hle : r * m + low < 2 * (h * m) := by
    calc r * m + low < r * m + m := by omega
      _ = (r + 1) * m := by ring
      _ ≤ (2 * h) * m := Nat.mul_le_mul_right m hr
      _ = 2 * (h * m) := by ring
  have hiff : r * m + low < h * m ↔ r < h := by
    constructor
    · intro lt
      exact Nat.lt_of_mul_lt_mul_right (Nat.lt_of_le_of_lt (Nat.le_add_right _ low) lt)
    · intro lt
      calc r * m + low < (r + 1) * m := by rw [Nat.add_mul]; omega
        _ ≤ h * m := Nat.mul_le_mul_right m lt
  rw [bmod_eq hle, bmod_eq hr]
  simp only [hiff]
  split
  · push_cast
    ring
  · push_cast
    ring

/-- Whether a sum or a difference of numbers of several words is exact is decided in their first
words, with the carry from the rest. -/
theorem exact_append {m s' d' r' : Nat} {α x c : Int} (hs : s < 2 * h) (hd : d < 2 * h)
    (hr : r < 2 * h) (hs' : s' < m) (hd' : d' < m) (hr' : r' < m)
    (low : (r' : Int) + m * c = α * s' + d' + x) :
    Int.bmod (r * m + r' : Nat) (2 * (h * m))
        = α * Int.bmod (s * m + s' : Nat) (2 * (h * m))
          + Int.bmod (d * m + d' : Nat) (2 * (h * m)) + x ↔
      Int.bmod r (2 * h) = α * Int.bmod s (2 * h) + Int.bmod d (2 * h) + c := by
  have hm : (0 : Int) < m := by omega
  rw [bmod_append hs hs', bmod_append hd hd', bmod_append hr hr']
  constructor
  · intro heq
    refine Int.eq_of_mul_eq_mul_right hm.ne' ?_
    linear_combination heq - low
  · intro heq
    rw [heq]
    linear_combination low

end TwosComplement
