import Kyacopycat.Keyboard
import Kyacopycat.Lib.BitField
import Kyacopycat.Lib.LastWrite

/-!
The keyboard matrix as a store of flags.

`KeyCell` is a key of the matrix and `matrix` its bit in `kb_rd`, set while the key is up.
A call of `change_keyreg_state` writes the flag of one cell, or nothing when a coordinate
is out of range, so the matrix after any calls is the store their history leaves.

* `matrix_changeKeyregState`: what one call does.
* `matrix_changeKeyregStates`: what a sequence of calls does.
* `KeyChange.apply_comm`: calls for different cells commute.
-/

namespace Kyacopycat

open LastWrite

/-- A key of the matrix, by row and column. -/
abbrev KeyCell : Type := Fin 8 × Fin 8

/-- The bits of the matrix. -/
def matrix (kbRd : CArray UInt8 8) (c : KeyCell) : Bool :=
  (kbRd c.1).toNat.testBit c.2

/-- The arguments of a call of `change_keyreg_state`. -/
structure KeyChange where
  y : UInt8
  x : UInt8
  state : UInt8
  deriving DecidableEq, Repr

/-- The matrix bytes after a call. -/
def KeyChange.apply (kbRd : CArray UInt8 8) (k : KeyChange) : CArray UInt8 8 :=
  changeKeyregState kbRd k.y k.x k.state

/-- The cell with the given coordinates, if they are in range. -/
def keyCell (y x : UInt8) : Option KeyCell :=
  if h : y.toNat < 8 ∧ x.toNat < 8 then some (⟨y.toNat, h.1⟩, ⟨x.toNat, h.2⟩) else none

/-- The writes that calls make to the cells, oldest first. -/
def keyHistory (ks : List KeyChange) : List (KeyCell × Bool) :=
  ks.filterMap fun k => (keyCell k.y k.x).map fun c => (c, decide (k.state ≠ 0))

theorem keyCell_isNone_iff (y x : UInt8) : keyCell y x = none ↔ y > 7 ∨ x > 7 := by
  have h7 : (7 : UInt8).toNat = 7 := rfl
  simp only [keyCell, gt_iff_lt, UInt8.lt_iff_toNat_lt, h7]
  split
  next h => simp only [reduceCtorEq, false_iff]; omega
  next h => simp only [true_iff]; omega

/-- A call sets or clears bit `x` of row `y`. -/
theorem matrix_changeKeyregState_apply (kbRd : CArray UInt8 8) {y x : UInt8}
    (hin : ¬ (y > 7 ∨ x > 7)) (hx : x.toNat < 8) (state : UInt8) (d : KeyCell) :
    matrix (changeKeyregState kbRd y x state) d
      = if d.1.val = y.toNat then
          if state ≠ 0 then matrix kbRd d || decide (x.toNat = d.2.val)
          else matrix kbRd d && !decide (x.toNat = d.2.val)
        else matrix kbRd d := by
  rw [changeKeyregState, if_neg hin]
  simp only [matrix]
  split
  next hs =>
    rw [CArray.modify_apply]
    split
    · exact BitField.testBit_or_shiftLeft _ hx _
    · rfl
  next hs =>
    rw [CArray.modify_apply]
    split
    · exact BitField.testBit_and_not_shiftLeft _ hx d.2.isLt
    · rfl

/-- One call writes its cell and leaves the others alone. -/
theorem matrix_changeKeyregState (kbRd : CArray UInt8 8) {y x : UInt8} {c : KeyCell}
    (h : keyCell y x = some c) (state : UInt8) :
    matrix (changeKeyregState kbRd y x state)
      = Function.update (matrix kbRd) c (decide (state ≠ 0)) := by
  have hin : ¬ (y > 7 ∨ x > 7) := fun hout => by
    rw [(keyCell_isNone_iff y x).mpr hout] at h
    cases h
  unfold keyCell at h
  split at h
  next hlt =>
    cases h
    funext d
    have hd : d = (⟨y.toNat, hlt.1⟩, ⟨x.toNat, hlt.2⟩) ↔ d.1.val = y.toNat ∧ x.toNat = d.2.val := by
      simp only [Prod.ext_iff, Fin.ext_iff, eq_comm]
    rw [matrix_changeKeyregState_apply kbRd hin hlt.2, Function.update_apply]
    by_cases hrow : d.1.val = y.toNat
    · by_cases hcol : x.toNat = d.2.val
      · rw [if_pos (hd.mpr ⟨hrow, hcol⟩)]
        by_cases hs : state = 0 <;> simp [hrow, hcol, hs]
      · rw [if_neg fun h => hcol (hd.mp h).2]
        by_cases hs : state = 0 <;> simp [hrow, hcol, hs]
    · rw [if_neg hrow, if_neg fun h => hrow (hd.mp h).1]
  next => cases h

/-- A call with a coordinate out of range changes nothing. -/
theorem changeKeyregState_of_none (kbRd : CArray UInt8 8) {y x : UInt8} (h : keyCell y x = none)
    (state : UInt8) : changeKeyregState kbRd y x state = kbRd :=
  if_pos ((keyCell_isNone_iff y x).mp h)

/-- The matrix after a sequence of calls is the store their history leaves. -/
theorem matrix_changeKeyregStates (kbRd : CArray UInt8 8) (ks : List KeyChange) :
    matrix (ks.foldl KeyChange.apply kbRd) = valueAt (matrix kbRd) (keyHistory ks) := by
  unfold keyHistory
  induction ks generalizing kbRd with
  | nil => simp
  | cons k ks ih =>
    rw [List.foldl_cons, ih, KeyChange.apply]
    cases h : keyCell k.y k.x with
    | none => rw [changeKeyregState_of_none _ h, List.filterMap_cons_none (by rw [h]; rfl)]
    | some c =>
      rw [matrix_changeKeyregState _ h, List.filterMap_cons_some (by rw [h]; rfl), valueAt_cons]

/-- Two matrices with the same bits are the same. -/
theorem eq_of_matrix {kbRd kbRd' : CArray UInt8 8} (h : matrix kbRd = matrix kbRd') :
    kbRd = kbRd' := by
  funext y
  exact BitField.eq_of_testBit fun i hi => congrFun h (y, ⟨i, hi⟩)

/-- The matrix the program starts with has every key up. -/
theorem matrix_fill : matrix (CArray.fill 0xFF) = fun _ => true := by
  have hones : ∀ i < 8, (0xFF : UInt8).toNat.testBit i = true := by decide
  funext c
  exact hones c.2 c.2.isLt

/-- The matrix bytes are all `0xFF` exactly when every key is up. -/
theorem matrix_all_true_iff (kbRd : CArray UInt8 8) :
    kbRd = CArray.fill 0xFF ↔ ∀ c, matrix kbRd c = true := by
  constructor
  · rintro rfl
    exact congrFun matrix_fill
  · intro all
    exact eq_of_matrix ((funext all).trans matrix_fill.symm)

/-- Calls for different cells commute. -/
theorem KeyChange.apply_comm {k k' : KeyChange} (h : keyCell k.y k.x ≠ keyCell k'.y k'.x)
    (kbRd : CArray UInt8 8) : k'.apply (k.apply kbRd) = k.apply (k'.apply kbRd) := by
  unfold KeyChange.apply
  cases hk : keyCell k.y k.x with
  | none => rw [changeKeyregState_of_none _ hk, changeKeyregState_of_none _ hk]
  | some c =>
    cases hk' : keyCell k'.y k'.x with
    | none => rw [changeKeyregState_of_none _ hk', changeKeyregState_of_none _ hk']
    | some c' =>
      have hne : c ≠ c' := by
        rintro rfl
        exact h (hk.trans hk'.symm)
      apply eq_of_matrix
      rw [matrix_changeKeyregState _ hk', matrix_changeKeyregState _ hk,
        matrix_changeKeyregState _ hk, matrix_changeKeyregState _ hk', Function.update_comm hne]

end Kyacopycat
