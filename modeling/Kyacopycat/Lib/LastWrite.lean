import Kyacopycat.Lib.History
import Mathlib.Logic.Function.Basic

/-!
The store that a history of writes leaves.

A history is a list of pairs of a key and the value written there, oldest first.
`lastWrite` is the value of the newest write to a key, and `valueAt` that value or,
for a key never written, the value the store had to begin with. A component that
updates some representation in place is a store of this kind when each of its
writes changes `valueAt` the way `valueAt_concat` says.
-/

namespace LastWrite

open History

variable {κ α : Type} [DecidableEq κ]

/-- The value the newest write to `k` wrote, if there was one. -/
def lastWrite (ws : List (κ × α)) (k : κ) : Option α :=
  (ws.findRev? fun w => w.1 = k).map Prod.snd

/-- What the store holds at `k` after the history, starting from `init`. -/
def valueAt (init : κ → α) (ws : List (κ × α)) (k : κ) : α :=
  (lastWrite ws k).getD (init k)

theorem lastWrite_nil (k : κ) : lastWrite ([] : List (κ × α)) k = none := by
  simp [lastWrite]

theorem lastWrite_concat (ws : List (κ × α)) (w : κ × α) (k : κ) :
    lastWrite (ws ++ [w]) k = if w.1 = k then some w.2 else lastWrite ws k := by
  by_cases h : w.1 = k <;> simp [lastWrite, h]

@[simp] theorem valueAt_nil (init : κ → α) : valueAt init [] = init := by
  funext k
  simp [valueAt, lastWrite_nil]

/-- One more write changes the store at its key and nowhere else. -/
theorem valueAt_concat (init : κ → α) (ws : List (κ × α)) (w : κ × α) :
    valueAt init (ws ++ [w]) = Function.update (valueAt init ws) w.1 w.2 := by
  funext k
  simp only [valueAt, lastWrite_concat, Function.update_apply]
  by_cases h : w.1 = k
  · simp [h]
  · simp [h, Ne.symm h]

theorem valueAt_append (init : κ → α) (ws vs : List (κ × α)) :
    valueAt init (ws ++ vs) = valueAt (valueAt init ws) vs := by
  induction vs using List.reverseRecOn with
  | nil => simp
  | append_singleton vs v ih => rw [← List.append_assoc, valueAt_concat, ih, valueAt_concat]

/-- A store changed by its first write, and then by the rest. -/
theorem valueAt_cons (init : κ → α) (w : κ × α) (ws : List (κ × α)) :
    valueAt init (w :: ws) = valueAt (Function.update init w.1 w.2) ws := by
  have h := valueAt_append init [w] ws
  rwa [show [w] = [] ++ [w] from rfl, valueAt_concat, valueAt_nil] at h

/-! ### Where the newest write stands -/

theorem lastWrite_append (ws vs : List (κ × α)) (k : κ) :
    lastWrite (ws ++ vs) k = (lastWrite vs k).or (lastWrite ws k) := by
  induction vs using List.reverseRecOn with
  | nil => simp [lastWrite_nil]
  | append_singleton vs v ih =>
    rw [← List.append_assoc, lastWrite_concat, lastWrite_concat, ih]
    by_cases h : v.1 = k <;> simp [h]

/-- The newest write to a key is one that no write to the key follows. -/
theorem exists_of_lastWrite_eq_some {ws : List (κ × α)} {k : κ} {v : α}
    (h : lastWrite ws k = some v) :
    ∃ before after, ws = before ++ (k, v) :: after ∧ ∀ w ∈ after, w.1 ≠ k := by
  induction ws using List.reverseRecOn with
  | nil => simp [lastWrite_nil] at h
  | append_singleton ws w ih =>
    rw [lastWrite_concat] at h
    by_cases hw : w.1 = k
    · rw [if_pos hw] at h
      cases h
      exact ⟨ws, [], by rw [← hw], by simp⟩
    · rw [if_neg hw] at h
      obtain ⟨before, after, rfl, later⟩ := ih h
      refine ⟨before, after ++ [w], by simp, fun u hu => ?_⟩
      rcases List.mem_append.mp hu with hu | hu
      · exact later u hu
      · exact List.mem_singleton.mp hu ▸ hw

/-- When events make the writes, each to its key if it has one, the newest write to a key is
made by the last event that has the key. -/
theorem lastWrite_events_iff {ε : Type} {key : ε → Option κ} {value : ε → α} {es : List ε}
    {k : κ} {v : α} :
    lastWrite (es.filterMap fun e => (key e).map fun j => (j, value e)) k = some v
      ↔ Since (fun e => key e = some k ∧ value e = v) (fun e => key e ≠ some k) es := by
  induction es using List.reverseRecOn with
  | nil => simp [lastWrite_nil, not_since_nil]
  | append_singleton es e ih =>
    rw [List.filterMap_append, since_concat, ← ih]
    cases hkey : key e with
    | none => simp [hkey]
    | some j =>
      rw [List.filterMap_cons_some (by rw [hkey]; rfl), List.filterMap_nil, lastWrite_concat]
      by_cases hj : j = k <;> simp [hj]

/-- A flag of a store that starts out all set is clear exactly when the last event that has
its key clears it. -/
theorem valueAt_events_eq_false_iff {ε : Type} {key : ε → Option κ} {flag : ε → Bool}
    {es : List ε} {k : κ} :
    valueAt (fun _ => true) (es.filterMap fun e => (key e).map fun j => (j, flag e)) k = false
      ↔ Since (fun e => key e = some k ∧ flag e = false) (fun e => key e ≠ some k) es := by
  rw [← lastWrite_events_iff, valueAt]
  cases lastWrite (es.filterMap fun e => (key e).map fun j => (j, flag e)) k <;> simp

/-- A store of flags that starts out all set is all set again after a history exactly when
every write that clears a flag is followed by one that sets it. -/
theorem valueAt_true_iff (ws : List (κ × Bool)) :
    (∀ k, valueAt (fun _ => true) ws k = true) ↔
      ∀ before k after, ws = before ++ (k, false) :: after → (k, true) ∈ after := by
  constructor
  · rintro all before k after rfl
    have h := all k
    rw [valueAt, List.append_cons, lastWrite_append, lastWrite_concat, if_pos rfl] at h
    cases hlast : lastWrite after k with
    | none => simp [hlast] at h
    | some v =>
      obtain ⟨b, a, rfl, -⟩ := exists_of_lastWrite_eq_some hlast
      simp only [hlast, Option.some_or, Option.getD_some] at h
      simp [h]
  · intro followed k
    rw [valueAt]
    cases hlast : lastWrite ws k with
    | none => rfl
    | some v =>
      obtain ⟨before, after, hws, later⟩ := exists_of_lastWrite_eq_some hlast
      cases v with
      | true => rfl
      | false => exact absurd rfl (later _ (followed before k after hws))

end LastWrite
