import Mathlib.Data.List.Induction

/-!
What has happened since when, in a history listed oldest first.

`Since p q xs` says that some element satisfies `p` and all later ones satisfy `q`.
`countSince p xs` counts from the last element that satisfies `p` on, that one included, or
from the start if there is none.

* `concat_eq_append_cons`: where an element stands in a history with one more.
* `since_concat`, `countSince_concat`: one more element.
* `countSince_of_last`, `countSince_of_none`: the count from where the last such element stands.
-/

namespace History

variable {α : Type}

/-- An element of a history with one more is the new one, or stands before it. -/
theorem concat_eq_append_cons {xs before after : List α} {x z : α} :
    xs ++ [z] = before ++ x :: after ↔
      after = [] ∧ before = xs ∧ x = z ∨
        ∃ later, after = later ++ [z] ∧ xs = before ++ x :: later := by
  constructor
  · intro heq
    rcases List.eq_nil_or_concat after with rfl | ⟨later, y, rfl⟩
    · obtain ⟨hxs, hz⟩ := List.append_inj' heq rfl
      exact .inl ⟨rfl, hxs.symm, (List.head_eq_of_cons_eq hz).symm⟩
    · rw [List.concat_eq_append, ← List.cons_append, ← List.append_assoc] at heq
      obtain ⟨hxs, hz⟩ := List.append_inj' heq rfl
      rw [List.concat_eq_append, hz]
      exact .inr ⟨later, rfl, hxs⟩
  · rintro (⟨rfl, rfl, rfl⟩ | ⟨later, rfl, rfl⟩)
    · rfl
    · rw [List.append_assoc, List.cons_append]

/-- Some element satisfies `p`, and all later ones satisfy `q`. -/
def Since (p q : α → Prop) (xs : List α) : Prop :=
  ∃ before x after, xs = before ++ x :: after ∧ p x ∧ ∀ y ∈ after, q y

variable {p q : α → Prop}

theorem not_since_nil : ¬ Since p q [] := by
  rintro ⟨before, x, after, h, -⟩
  simp at h

theorem since_concat (xs : List α) (z : α) :
    Since p q (xs ++ [z]) ↔ p z ∨ (q z ∧ Since p q xs) := by
  constructor
  · rintro ⟨before, x, after, heq, hx, hafter⟩
    rcases concat_eq_append_cons.mp heq with ⟨-, -, rfl⟩ | ⟨later, rfl, rfl⟩
    · exact .inl hx
    · obtain ⟨hlater, hz⟩ := List.forall_mem_append.mp hafter
      exact .inr ⟨hz z List.mem_cons_self, before, x, later, rfl, hx, hlater⟩
  · rintro (hz | ⟨hz, before, x, after, rfl, hx, hafter⟩)
    · exact ⟨xs, z, [], rfl, hz, fun y hy => absurd hy List.not_mem_nil⟩
    · refine ⟨before, x, after ++ [z], ?_, hx, List.forall_mem_append.mpr ⟨hafter, ?_⟩⟩
      · rw [List.append_assoc, List.cons_append]
      · intro y hy
        exact List.mem_singleton.mp hy ▸ hz

/-- An element that satisfies `p` has a last one. -/
theorem since_not_of_exists {xs : List α} (h : ∃ x ∈ xs, p x) : Since p (fun x => ¬ p x) xs := by
  induction xs using List.reverseRecOn with
  | nil => simp at h
  | append_singleton xs z ih =>
    rw [since_concat]
    by_cases hz : p z
    · exact .inl hz
    · obtain ⟨x, hx, hpx⟩ := h
      rcases List.mem_append.mp hx with hx | hx
      · exact .inr ⟨hz, ih ⟨x, hx, hpx⟩⟩
      · exact absurd (List.mem_singleton.mp hx ▸ hpx) hz

/-! ### Counting -/

variable (p) [DecidablePred p]

/-- The number of elements from the last one that satisfies `p` on. -/
def countSince (xs : List α) : Nat :=
  xs.foldl (fun k x => if p x then 1 else k + 1) 0

theorem countSince_concat (xs : List α) (z : α) :
    countSince p (xs ++ [z]) = if p z then 1 else countSince p xs + 1 := by
  rw [countSince, List.foldl_append]
  rfl

theorem countSince_append {xs : List α} (ys : List α) (h : ∀ y ∈ ys, ¬ p y) :
    countSince p (xs ++ ys) = countSince p xs + ys.length := by
  induction ys using List.reverseRecOn with
  | nil => simp
  | append_singleton ys z ih =>
    have hz : ¬ p z := h z (by simp)
    rw [← List.append_assoc, countSince_concat, if_neg hz, ih fun y hy => h y (by simp [hy]),
      List.length_append, List.length_singleton, Nat.add_assoc]

theorem countSince_of_none {xs : List α} (h : ∀ x ∈ xs, ¬ p x) : countSince p xs = xs.length := by
  have hcount : countSince p ([] ++ xs) = 0 + xs.length := countSince_append p xs h
  rwa [List.nil_append, Nat.zero_add] at hcount

theorem countSince_of_last {before after : List α} {x : α} (hx : p x)
    (h : ∀ y ∈ after, ¬ p y) : countSince p (before ++ x :: after) = after.length + 1 := by
  rw [List.append_cons, countSince_append p after h, countSince_concat, if_pos hx, Nat.add_comm]

end History
