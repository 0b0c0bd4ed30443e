import Mathlib.Logic.Function.Basic
import Mathlib.Logic.Pairwise

/-!
Operands with effects, evaluated in an order that the language leaves open.

`act i` is the evaluation of operand `i`: it may fail, yields a value and may change the
state. `evalAll` evaluates a list of operands in the order of the list and returns their
values by operand. When any two operands commute, values and state do not depend on the
order (`evalAll_perm`).
-/

namespace EvalOrder

variable {σ ι β : Type}

/-- Evaluating `i` and then `j` gives the same two values and the same state as evaluating
`j` and then `i`. -/
def Commute (act : ι → σ → Option (β × σ)) (i j : ι) : Prop :=
  ∀ s, ((act i s).bind fun r => (act j r.2).map fun r' => (r.1, r'.1, r'.2))
    = (act j s).bind fun r' => (act i r'.2).map fun r => (r.1, r'.1, r.2)

variable [DecidableEq ι]

/-- Evaluate the operands in the order of the list. The values are added to `vals`. -/
def evalAll (act : ι → σ → Option (β × σ)) : List ι → (ι → β) → σ → Option ((ι → β) × σ)
  | [], vals, s => some (vals, s)
  | i :: is, vals, s =>
    (act i s).bind fun r => evalAll act is (Function.update vals i r.1) r.2

variable {act : ι → σ → Option (β × σ)}

/-- The first two operands of a list, as a pair of values. -/
theorem evalAll_cons_cons (i j : ι) (is : List ι) (vals : ι → β) (s : σ) :
    evalAll act (i :: j :: is) vals s
      = ((act i s).bind fun r => (act j r.2).map fun r' => (r.1, r'.1, r'.2)).bind fun p =>
          evalAll act is (Function.update (Function.update vals i p.1) j p.2.1) p.2.2 := by
  simp only [evalAll, Option.bind_assoc, Option.bind_map, Function.comp_def]

theorem evalAll_swap {i j : ι} (hne : i ≠ j) (comm : Commute act i j) (is : List ι)
    (vals : ι → β) (s : σ) :
    evalAll act (i :: j :: is) vals s = evalAll act (j :: i :: is) vals s := by
  rw [evalAll_cons_cons, comm s]
  simp only [evalAll, Option.bind_assoc, Option.bind_map, Function.comp_def,
    Function.update_comm hne]

/-- Operands that commute pairwise may be evaluated in any order. -/
theorem evalAll_perm (comm : Pairwise (Commute act)) {is js : List ι} (perm : is.Perm js)
    (nodup : is.Nodup) (vals : ι → β) (s : σ) :
    evalAll act is vals s = evalAll act js vals s := by
  induction perm generalizing vals s with
  | nil => rfl
  | cons i _ ih =>
    simp only [evalAll]
    exact Option.bind_congr fun r _ => ih (List.nodup_cons.mp nodup).2 _ _
  | swap i j is =>
    have hne : j ≠ i := fun h => (List.nodup_cons.mp nodup).1 (h ▸ List.mem_cons_self)
    exact evalAll_swap hne (comm hne) is vals s
  | trans perm _ ih ih' => exact (ih nodup vals s).trans (ih' (perm.nodup_iff.mp nodup) vals s)

end EvalOrder
