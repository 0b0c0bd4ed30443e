import Mathlib.Data.List.Infix

/-!
Runs of a partial step function.

`step s x` is the state after the system takes step `x` in `s`, or `none` when
the step is undefined there. A run is a list of steps. The rules below are the
inductions a development needs over them, stated once:

* `run_invariant`: what every step preserves, every run preserves.
* `run_history`: the same for what relates a state to the steps taken to it.
* `run_counted`: the same for what depends on how many steps of one kind have been taken.
* `run_refines`: two systems that agree on every step agree on every run.
* `afterEach_iff_meets`, `always_iff_meets`: when the steps that meet a condition keep an
  invariant and the others break a property, the property holds throughout exactly the
  runs whose steps all meet the condition.
-/

namespace Run

variable {σ τ ι : Type}

/-- The state after a run. -/
def run (step : σ → ι → Option σ) (s : σ) (xs : List ι) : Option σ :=
  xs.foldlM step s

variable {step : σ → ι → Option σ}

@[simp] theorem run_nil (s : σ) : run step s [] = some s := rfl

@[simp] theorem run_cons (s : σ) (x : ι) (xs : List ι) :
    run step s (x :: xs) = (step s x).bind fun t => run step t xs := rfl

theorem run_append (s : σ) (xs ys : List ι) :
    run step s (xs ++ ys) = (run step s xs).bind fun t => run step t ys :=
  List.foldlM_append

/-- What every step preserves, every run preserves. -/
theorem run_invariant {P : σ → Prop} (keep : ∀ s x t, P s → step s x = some t → P t) {s t : σ}
    {xs : List ι} (init : P s) (h : run step s xs = some t) : P t := by
  induction xs generalizing s with
  | nil => exact Option.some.inj h ▸ init
  | cons x xs ih =>
    obtain ⟨u, hu, rest⟩ := Option.bind_eq_some_iff.mp h
    exact ih (keep s x u init hu) rest

/-- What holds of the start and no steps, and is preserved by one more step, holds of every
run and the state it ends in. -/
theorem run_history {P : List ι → σ → Prop} {s t : σ} {xs : List ι} (init : P [] s)
    (keep : ∀ ys u x v, P ys u → step u x = some v → P (ys ++ [x]) v)
    (h : run step s xs = some t) : P xs t := by
  suffices gen : ∀ ys u, P ys u → run step u xs = some t → P (ys ++ xs) t from gen [] s init h
  clear init h
  induction xs with
  | nil =>
    intro ys u here h
    rw [List.append_nil]
    exact Option.some.inj h ▸ here
  | cons x xs ih =>
    intro ys u here h
    obtain ⟨v, hv, rest⟩ := Option.bind_eq_some_iff.mp h
    rw [List.append_cons]
    exact ih (ys ++ [x]) v (keep ys u x v here hv) rest

/-- Some steps count, up to a bound; the others leave what depends on their number alone. -/
theorem run_counted {J : Nat → σ → Prop} {counts : ι → Bool} {bound : Nat}
    (quiet : ∀ m s x t, counts x = false → J m s → step s x = some t → J m t)
    (turn : ∀ m s x t, m < bound → counts x = true → J m s → step s x = some t → J (m + 1) t)
    {s t : σ} {xs : List ι} (init : J 0 s) (h : run step s xs = some t)
    (hbound : xs.countP counts ≤ bound) : J (xs.countP counts) t := by
  suffices gen : xs.countP counts ≤ bound → J (xs.countP counts) t from gen hbound
  refine run_history (P := fun ys u => ys.countP counts ≤ bound → J (ys.countP counts) u)
    (fun _ => init) (fun ys u x v here hv hle => ?_) h
  rw [List.countP_append, List.countP_singleton] at hle ⊢
  cases hx : counts x with
  | true =>
    rw [hx] at hle
    simp only at hle ⊢
    exact turn _ u x v (Nat.lt_of_succ_le hle) hx (here (Nat.le_of_succ_le hle)) hv
  | false =>
    rw [hx] at hle
    exact quiet _ u x v hx (here (by simpa using hle)) hv

/-- When every step agrees with a step of another system, seen through `view`, so does every
run. -/
theorem run_refines {I : σ → Prop} (view : σ → τ) (step' : τ → ι → Option τ)
    (keep : ∀ s x t, I s → step s x = some t → I t)
    (agree : ∀ s x, I s → (step s x).map view = step' (view s) x) {s : σ} (init : I s)
    (xs : List ι) : (run step s xs).map view = run step' (view s) xs := by
  induction xs generalizing s with
  | nil => rfl
  | cons x xs ih =>
    rw [run_cons, run_cons, ← agree s x init]
    cases h : step s x with
    | none => rfl
    | some t => exact ih (keep s x t init h)

/-! ### Properties of every state a run passes through -/

/-- `P` holds after every prefix of the run. -/
def Always (step : σ → ι → Option σ) (P : σ → Prop) (s : σ) (xs : List ι) : Prop :=
  ∀ ys, ys <+: xs → ∀ t, run step s ys = some t → P t

/-- Every step the run takes is taken in a state where `C` allows it. -/
def Meets (step : σ → ι → Option σ) (C : σ → ι → Prop) : σ → List ι → Prop
  | _, [] => True
  | s, x :: xs => ∀ t, step s x = some t → C s x ∧ Meets step C t xs

theorem Meets.cons {C : σ → ι → Prop} {s t : σ} {x : ι} {xs : List ι} (h : step s x = some t)
    (here : C s x) (later : Meets step C t xs) : Meets step C s (x :: xs) := by
  intro t' h'
  obtain rfl := Option.some.inj (h.symm.trans h')
  exact ⟨here, later⟩

theorem Always.head {P : σ → Prop} {s : σ} {xs : List ι} (h : Always step P s xs) : P s :=
  h [] (List.nil_prefix) s rfl

theorem Always.last {P : σ → Prop} {s t : σ} {xs : List ι} (h : Always step P s xs)
    (run : run step s xs = some t) : P t :=
  h xs List.prefix_rfl t run

/-! ### Properties of every state after the first -/

/-- `P` holds after every step of the run. -/
def AfterEach (step : σ → ι → Option σ) (P : σ → Prop) (s : σ) (xs : List ι) : Prop :=
  ∀ ys, ys ≠ [] → ys <+: xs → ∀ t, run step s ys = some t → P t

theorem always_iff_afterEach {P : σ → Prop} {s : σ} {xs : List ι} :
    Always step P s xs ↔ P s ∧ AfterEach step P s xs := by
  constructor
  · exact fun h => ⟨h.head, fun ys _ hys => h ys hys⟩
  · rintro ⟨here, later⟩ ys hys t ht
    by_cases hne : ys = []
    · subst hne
      exact Option.some.inj ht ▸ here
    · exact later ys hne hys t ht

theorem afterEach_nil {P : σ → Prop} {s : σ} : AfterEach step P s [] := fun _ hne hys =>
  absurd (List.prefix_nil.mp hys) hne

theorem afterEach_cons {P : σ → Prop} {s : σ} {x : ι} {xs : List ι} :
    AfterEach step P s (x :: xs) ↔ ∀ t, step s x = some t → P t ∧ AfterEach step P t xs := by
  constructor
  · intro h t ht
    refine always_iff_afterEach.mp fun ys hys u hu => ?_
    exact h (x :: ys) (by simp) (List.cons_prefix_cons.mpr ⟨rfl, hys⟩) u (by simp [ht, hu])
  · rintro h ys hne hys u hu
    cases ys with
    | nil => exact absurd rfl hne
    | cons y ys =>
      obtain ⟨rfl, tail⟩ := List.cons_prefix_cons.mp hys
      obtain ⟨t, ht, rest⟩ := Option.bind_eq_some_iff.mp hu
      exact always_iff_afterEach.mpr (h t ht) ys tail u rest

/-- When the steps that meet `C` keep an invariant and establish `P`, and the others break
`P`, then `P` holds after every step of exactly the runs whose steps all meet `C`. -/
theorem afterEach_iff_meets {I P : σ → Prop} {C : σ → ι → Prop}
    (keep : ∀ s x t, I s → C s x → step s x = some t → I t ∧ P t)
    (strict : ∀ s x t, I s → ¬ C s x → step s x = some t → ¬ P t) {s : σ} {xs : List ι}
    (init : I s) : AfterEach step P s xs ↔ Meets step C s xs := by
  induction xs generalizing s with
  | nil => exact iff_of_true afterEach_nil trivial
  | cons x xs ih =>
    rw [afterEach_cons, Meets]
    refine forall₂_congr fun t ht => ?_
    by_cases ok : C s x
    · obtain ⟨inv, holds⟩ := keep s x t init ok ht
      simp only [holds, ok, true_and, ih inv]
    · simp only [ok, false_and, iff_false, not_and]
      exact fun holds => absurd holds (strict s x t init ok ht)

/-- The same for a property that holds from the start. -/
theorem always_iff_meets {I P : σ → Prop} {C : σ → ι → Prop} (safe : ∀ s, I s → P s)
    (keep : ∀ s x t, I s → C s x → step s x = some t → I t)
    (strict : ∀ s x t, I s → ¬ C s x → step s x = some t → ¬ P t) {s : σ} {xs : List ι}
    (init : I s) : Always step P s xs ↔ Meets step C s xs := by
  rw [always_iff_afterEach, and_iff_right (safe s init)]
  exact afterEach_iff_meets (fun s x t inv ok h => ⟨keep s x t inv ok h,
    safe t (keep s x t inv ok h)⟩) strict init

end Run
