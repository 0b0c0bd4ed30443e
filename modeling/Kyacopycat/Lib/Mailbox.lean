import Kyacopycat.Lib.History
import Kyacopycat.Lib.Run
import Mathlib.Data.List.Count

/-!
A mailbox with one place.

A put fills it, also when it is full already: then it is merged with the put before it. A take
needs it full and empties it.

* `filled_of_run`: every take follows a put with no take in between, and the mailbox is full when
  a put has followed the last take.
* `balance`: every put is taken, is still there or was merged.
-/

namespace Mailbox

open History Run

inductive Event where
  | put
  | take
  deriving DecidableEq, Repr

/-- The mailbox after an event. -/
def step (full : Bool) : Event → Option Bool
  | .put => some true
  | .take => if full then some false else none

/-- A put has followed the last take. -/
def Filled (es : List Event) : Prop := Since (· = .put) (· ≠ .take) es

/-- The number of puts into a full mailbox. -/
def merged : Bool → List Event → Nat
  | _, [] => 0
  | full, .put :: es => full.toNat + merged true es
  | _, .take :: es => merged false es

variable {full full' : Bool} {es fs : List Event}

@[simp] theorem step_take_eq_some : step full .take = some full' ↔ full = true ∧ full' = false := by
  cases full <;> simp [step, eq_comm]

/-- What the histories of a mailbox that was empty at first look like. -/
theorem filled_of_run (h : run step false es = some full) :
    (∀ before after, es = before ++ .take :: after → Filled before) ∧
      (full = true ↔ Filled es) := by
  refine run_history (P := fun es full => (∀ before after, es = before ++ .take :: after →
    Filled before) ∧ (full = true ↔ Filled es)) ?_ ?_ h
  · refine ⟨fun before after heq => ?_, ?_⟩
    · exact absurd heq (by simp)
    · exact iff_of_false Bool.false_ne_true not_since_nil
  · rintro es full e full' ⟨before, here⟩ hstep
    rw [Filled, since_concat]
    cases e with
    | put =>
      cases hstep
      refine ⟨fun bs as heq => ?_, iff_of_true rfl (.inl rfl)⟩
      rcases concat_eq_append_cons.mp heq with ⟨-, -, hput⟩ | ⟨later, -, hes⟩
      · cases hput
      · exact before bs later hes
    | take =>
      obtain ⟨hfull, rfl⟩ := step_take_eq_some.mp hstep
      refine ⟨fun bs as heq => ?_, iff_of_false Bool.false_ne_true (by simp)⟩
      rcases concat_eq_append_cons.mp heq with ⟨-, rfl, -⟩ | ⟨later, -, hes⟩
      · exact here.mp hfull
      · exact before bs later hes

theorem merged_append (h : run step full es = some full') :
    merged full (es ++ fs) = merged full es + merged full' fs := by
  induction es generalizing full with
  | nil =>
    obtain rfl := Option.some.inj h
    exact (Nat.zero_add _).symm
  | cons e es ih =>
    obtain ⟨middle, hstep, rest⟩ := Option.bind_eq_some_iff.mp h
    cases e with
    | put =>
      cases hstep
      rw [List.cons_append, merged, merged, ih rest, Nat.add_assoc]
    | take =>
      obtain ⟨-, rfl⟩ := step_take_eq_some.mp hstep
      exact ih rest

/-- **The account of a mailbox.** -/
theorem balance (h : run step full es = some full') :
    full.toNat + es.count .put = full'.toNat + es.count .take + merged full es := by
  induction es generalizing full with
  | nil =>
    obtain rfl := Option.some.inj h
    rfl
  | cons e es ih =>
    obtain ⟨middle, hstep, rest⟩ := Option.bind_eq_some_iff.mp h
    cases e with
    | put =>
      cases hstep
      have account := ih rest
      rw [Bool.toNat_true] at account
      rw [List.count_cons_self, List.count_cons_of_ne (by decide), merged]
      omega
    | take =>
      obtain ⟨rfl, rfl⟩ := step_take_eq_some.mp hstep
      have account := ih rest
      rw [Bool.toNat_false] at account
      rw [List.count_cons_self, List.count_cons_of_ne (by decide), merged, Bool.toNat_true]
      omega

theorem merged_of_takes (takes : ∀ e ∈ es, e = .take) : merged full es = 0 := by
  induction es generalizing full with
  | nil => rfl
  | cons e es ih =>
    obtain ⟨rfl, later⟩ := List.forall_mem_cons.mp takes
    exact ih later

theorem empty_of_takes (takes : ∀ e ∈ es, e = .take) (h : run step false es = some full) :
    full = false := by
  have account := balance h
  have hput : es.count .put = 0 := List.count_eq_zero.mpr fun hmem => by cases takes _ hmem
  rw [hput, Bool.toNat_false] at account
  exact Bool.toNat_eq_zero.mp (by omega)

end Mailbox
