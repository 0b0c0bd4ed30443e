import Mathlib.Logic.Function.Basic
import Mathlib.Data.List.OfFn

/-!
Arrays of a fixed declared length, as C has them.

`CArray α n` is the contents of an array declared `α a[n]`. Reading and writing
through `load` and `store` is checked: an index outside the declared length,
undefined behaviour in C, is `none`. `set` is the unchecked update the laws are
stated with; `store` is `set` behind the bounds test.

* `load_of_lt`, `store_of_lt`: an access inside the bounds succeeds.
* `load_set`: read over write.
* `ofBytes`, `toList`: what a partial read into the array leaves in it, and the
  array as the sequence of its elements; `ofBytes_toList` is their round trip.
-/

/-- The contents of an array declared with `n` elements. -/
abbrev CArray (α : Type) (n : Nat) := Fin n → α

namespace CArray

variable {α : Type} {n : Nat}

/-- Every element holds `v`. -/
def fill (v : α) : CArray α n := fun _ => v

/-- Checked read `a[i]`. -/
def load (a : CArray α n) (i : Nat) : Option α :=
  if h : i < n then some (a ⟨i, h⟩) else none

/-- Replace the element at `i`, if there is one, by `f` of it. -/
def modify (a : CArray α n) (i : Nat) (f : α → α) : CArray α n :=
  fun j => if j.val = i then f (a j) else a j

/-- Replace the element at `i`, if there is one. -/
def set (a : CArray α n) (i : Nat) (v : α) : CArray α n :=
  a.modify i fun _ => v

/-- Checked write `a[i] = v`. -/
def store (a : CArray α n) (i : Nat) (v : α) : Option (CArray α n) :=
  if i < n then some (a.set i v) else none

theorem load_of_lt (a : CArray α n) {i : Nat} (h : i < n) : a.load i = some (a ⟨i, h⟩) :=
  dif_pos h

@[simp] theorem load_isSome {a : CArray α n} {i : Nat} : (a.load i).isSome ↔ i < n := by
  simp [load]

theorem store_of_lt (a : CArray α n) {i : Nat} (h : i < n) (v : α) :
    a.store i v = some (a.set i v) :=
  if_pos h

@[simp] theorem set_apply (a : CArray α n) (i : Nat) (v : α) (j : Fin n) :
    a.set i v j = if j.val = i then v else a j :=
  rfl

@[simp] theorem modify_apply (a : CArray α n) (i : Nat) (f : α → α) (j : Fin n) :
    a.modify i f j = if j.val = i then f (a j) else a j :=
  rfl

/-- Read over write. -/
theorem load_set (a : CArray α n) (i j : Nat) (v : α) :
    (a.set i v).load j = if j = i ∧ j < n then some v else a.load j := by
  by_cases hj : j < n
  · rw [load_of_lt _ hj, load_of_lt _ hj, set_apply]
    simp only [hj, and_true]
    split <;> rfl
  · simp [load, hj]

/-! ### Filling from and writing to a sequence of elements -/

/-- What reading `xs` into the array from its start leaves in it: elements past
the end of `xs` keep their value, and `xs` past the end of the array is ignored. -/
def ofBytes (a : CArray α n) (xs : List α) : CArray α n :=
  fun i => xs.getD i.val (a i)

/-- The elements in order. -/
def toList (a : CArray α n) : List α := List.ofFn a

@[simp] theorem length_toList (a : CArray α n) : a.toList.length = n := by
  simp [toList]

/-- Reading back what was written restores the array, whatever follows it. -/
theorem ofBytes_toList (a b : CArray α n) (rest : List α) :
    b.ofBytes (a.toList ++ rest) = a := by
  funext i
  have hi : i.val < a.toList.length := by simp
  rw [ofBytes, List.getD_eq_getElem?_getD, List.getElem?_append_left hi]
  simp [toList]

/-- A sequence that fits leaves a uniform array as it was exactly when it has no other value. -/
theorem ofBytes_fill_iff (v : α) {xs : List α} (h : xs.length ≤ n) :
    (fill v : CArray α n).ofBytes xs = fill v ↔ ∀ x ∈ xs, x = v := by
  constructor
  · intro heq x hx
    obtain ⟨i, hi, rfl⟩ := List.getElem_of_mem hx
    have hat := congrFun heq ⟨i, by omega⟩
    simpa [ofBytes, fill, hi] using hat
  · intro all
    funext i
    rw [ofBytes, List.getD_eq_getElem?_getD]
    cases hi : xs[i.val]? with
    | none => rfl
    | some x => exact all x (List.mem_of_getElem? hi)

end CArray
