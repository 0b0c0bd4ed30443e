import Kyacopycat.Bus.WriteFrame
import Kyacopycat.Display.Window
import Kyacopycat.Lib.History

/-!
The watchdog of the main loop.

The guest resets the watchdog counter by writing the control register with bit 3 set, at any
point of a slice. The main loop increments the counter at the end of each slice and stops
when it is past 64.

* `WatchdogInv`: the counter is the number of slices from the last kicked one on.
* `watchdog_exact`: after which slice the watchdog stops the emulator.
-/

namespace Kyacopycat

open Run History

variable {n : Nat}

/-! ### The loop of either front end -/

/-- What an iteration of the main loop meets, in either front end: the accesses of the
guest, what handling the pending event comes to, and the serial stream. -/
structure Iteration where
  accesses : List Access
  event : EventEffect
  readable : Bool

/-- The machine and `run`. -/
structure Loop (n : Nat) where
  machine : Machine n
  run : Bool

/-- The loop when it is entered. -/
def Loop.enter (ui : Ui) (l : Loaded n) : Option (Loop n) := do
  let machine ← startUp ui l
  return { machine, run := true }

/-- One iteration of the main loop; there is none once `run` is zero. -/
def Loop.iterate (ui : Ui) (e : Loop n) (x : Iteration) : Option (Loop n) :=
  if e.run then do
    let s ← Run.run (Access.step ui) e.machine x.accesses
    return {
      machine := (sliceEnd s x.event x.readable).2
      run := !watchdogTriggered (tick s) && !x.event.quit }
  else none

/-- An iteration of the Xlib build is one of the loop, with a window besides. -/
theorem iterate_loop {remap : UInt8} {e e' : Emulator n} {x : Slice}
    (h : Kyacopycat.iterate remap e x = some e') :
    Loop.iterate .xlib ⟨e.machine, e.run⟩ ⟨x.accesses, xlibEvent remap x.event, x.readable⟩
      = some ⟨e'.machine, e'.run⟩ := by
  unfold Kyacopycat.iterate at h
  unfold Loop.iterate
  split at h
  next hrun =>
    obtain ⟨s, hs, heq⟩ := Option.bind_eq_some_iff.mp h
    have hmachine : (sliceEnd s (xlibEvent remap x.event) x.readable).2 = e'.machine :=
      congrArg Emulator.machine (Option.some.inj heq)
    have hrun' : (!watchdogTriggered (tick s) && !(xlibEvent remap x.event).quit) = e'.run :=
      congrArg Emulator.run (Option.some.inj heq)
    rw [if_pos hrun, hs, ← hmachine, ← hrun']
    rfl
  next => cases h

/-! ### Kicks -/

/-- The byte write resets the watchdog. -/
def Kicks (l : UInt32 × UInt8) : Prop :=
  l.1 = 0x840001 ∧ l.2 &&& 0x08 ≠ 0

instance (l : UInt32 × UInt8) : Decidable (Kicks l) := by
  unfold Kicks; infer_instance

/-- One of the byte writes in the slice resets the watchdog. -/
def Iteration.Kicked (x : Iteration) : Prop :=
  ∃ l ∈ x.accesses.flatMap Access.writeLanes, Kicks l

instance (x : Iteration) : Decidable x.Kicked := by
  unfold Iteration.Kicked; infer_instance

theorem written_watchdog (size : SoundRamSize n) (ui : Ui) (s : Machine n) (l : UInt32 × UInt8) :
    (written ui s l.1 l.2).watchdog = if Kicks l then 0 else s.watchdog := by
  obtain ⟨a, value⟩ := l
  by_cases ha : a = 0x840001
  · subst ha
    have hkicks : Kicks (0x840001, value) ↔ value &&& 0x8 ≠ 0 := and_iff_right rfl
    rw [written_opr size, writeOpr]
    simp only [hkicks]
    by_cases h8 : value &&& 0x8 ≠ 0
    · rw [if_pos h8, if_pos h8]
    · rw [if_neg h8, if_neg h8]
      repeat' split
      all_goals rfl
  · have hnot : ¬ Kicks (a, value) := fun h => ha h.1
    rw [if_neg hnot]
    have hcontrol := written_control ui s value ha
    simp only [controlRegisters, Prod.mk.injEq] at hcontrol
    exact hcontrol.2.2.2.2

/-- What byte writes leave in the watchdog counter. -/
def kickedTo (watchdog : UInt8) (ls : List (UInt32 × UInt8)) : UInt8 :=
  if ∃ l ∈ ls, Kicks l then 0 else watchdog

theorem kickedTo_append (watchdog : UInt8) (ls ms : List (UInt32 × UInt8)) :
    kickedTo watchdog (ls ++ ms) = kickedTo (kickedTo watchdog ls) ms := by
  simp only [kickedTo, List.mem_append, or_and_right, exists_or]
  by_cases hm : ∃ l ∈ ms, Kicks l
  · rw [if_pos (.inr hm), if_pos hm]
  · rw [if_neg hm]
    simp only [hm, or_false]

theorem writtenAll_watchdog (size : SoundRamSize n) (ui : Ui) (s : Machine n)
    (ls : List (UInt32 × UInt8)) :
    (writtenAll ui s ls).watchdog = kickedTo s.watchdog ls := by
  induction ls generalizing s with
  | nil => simp [kickedTo]
  | cons l ls ih =>
    have hone : kickedTo s.watchdog [l] = if Kicks l then 0 else s.watchdog := by simp [kickedTo]
    rw [writtenAll_cons, ih, written_watchdog size, ← hone, ← kickedTo_append]
    rfl

theorem access_watchdog (size : SoundRamSize n) {ui : Ui} {s t : Machine n} {x : Access}
    (h : x.step ui s = some t) : t.watchdog = kickedTo s.watchdog x.writeLanes := by
  cases x with
  | read w a =>
    obtain ⟨⟨v, u⟩, hread, rfl⟩ := Option.map_eq_some_iff.mp h
    obtain ⟨rfl, -, -⟩ := m68kReadMemory_lanes size.upper hread
    rw [readEffects_eq]
    simp [kickedTo, Access.writeLanes]
  | write b =>
    rw [Access.step, b.step_eq size] at h
    exact Option.some.inj h ▸ writtenAll_watchdog size ui s b.lanes

/-- The watchdog counter at any point of a slice. -/
theorem run_watchdog (size : SoundRamSize n) {ui : Ui} {s t : Machine n} {xs : List Access}
    (h : run (Access.step ui) s xs = some t) :
    t.watchdog = kickedTo s.watchdog (xs.flatMap Access.writeLanes) := by
  refine run_history (P := fun ys u => u.watchdog
    = kickedTo s.watchdog (ys.flatMap Access.writeLanes)) (by simp [kickedTo]) ?_ h
  intro ys u x v ih hstep
  rw [List.flatMap_append, kickedTo_append, ← ih, List.flatMap_singleton]
  exact access_watchdog size hstep

/-- The steps at the end of a slice count it. -/
theorem sliceEnd_watchdog (s : Machine n) (event : EventEffect) (readable : Bool) :
    (sliceEnd s event readable).2.watchdog = s.watchdog + 1 := by
  rw [sliceEnd_snd]
  obtain ⟨_, _, hdisp⟩ := displayStep_frame (tick s)
  obtain ⟨_, hevent⟩ := event.apply_frame (displayStep (tick s)).2
  obtain ⟨_, _, _, _, hserial⟩ :=
    serialStep_frame (event.apply (displayStep (tick s)).2) readable
  rw [hserial, hevent, hdisp]
  rfl

/-! ### Counting slices -/

/-- Slice `r`, counting from 1, is the last kicked one. -/
def LastKicked (xs : List Iteration) (r : Nat) : Prop :=
  ∃ before x after, xs = before ++ x :: after ∧ x.Kicked ∧ (∀ y ∈ after, ¬ y.Kicked) ∧
    r = before.length + 1

/-- The slices so far are 65 without a kick, or 64 after the last kicked one. -/
def WatchdogDue (xs : List Iteration) : Prop :=
  ((∀ x ∈ xs, ¬ x.Kicked) ∧ xs.length = 65) ∨ ∃ r, LastKicked xs r ∧ xs.length - r = 64

/-- The number of slices from the last kicked one on. -/
def slicesSinceKick (xs : List Iteration) : Nat :=
  countSince Iteration.Kicked xs

theorem slicesSinceKick_of_lastKicked {xs : List Iteration} {r : Nat} (h : LastKicked xs r) :
    slicesSinceKick xs = xs.length - r + 1 := by
  obtain ⟨before, x, after, rfl, hx, later, rfl⟩ := h
  rw [slicesSinceKick, countSince_of_last _ hx later, List.length_append, List.length_cons]
  omega

theorem watchdogDue_iff (xs : List Iteration) : WatchdogDue xs ↔ slicesSinceKick xs = 65 := by
  constructor
  · rintro (⟨none, hlength⟩ | ⟨r, hlast, hr⟩)
    · rw [slicesSinceKick, countSince_of_none _ none, hlength]
    · rw [slicesSinceKick_of_lastKicked hlast, hr]
  · intro hcount
    by_cases hkick : ∃ x ∈ xs, x.Kicked
    · obtain ⟨before, x, after, heq, hx, later⟩ := since_not_of_exists hkick
      have hlast : LastKicked xs (before.length + 1) := ⟨before, x, after, heq, hx, later, rfl⟩
      refine .inr ⟨_, hlast, ?_⟩
      rw [slicesSinceKick_of_lastKicked hlast] at hcount
      omega
    · have none : ∀ x ∈ xs, ¬ x.Kicked := fun x hx hk => hkick ⟨x, hx, hk⟩
      rw [slicesSinceKick, countSince_of_none _ none] at hcount
      exact .inl ⟨none, hcount⟩

/-! ### The counter in a run -/

/-- The last event of the slices, if there is one, does not end the loop. -/
def NoQuit (xs : List Iteration) : Prop :=
  ∀ x ∈ xs.getLast?, x.event.quit = false

/-- The counter between slices, against the slices so far. The loop goes on unless it has passed
64 or the last event has ended it. -/
structure WatchdogInv (xs : List Iteration) (e : Loop n) : Prop where
  counts : e.machine.watchdog.toNat = slicesSinceKick xs
  le : e.machine.watchdog.toNat ≤ 65
  goes : e.run = true ↔ e.machine.watchdog.toNat ≤ 64 ∧ NoQuit xs

theorem watchdogTriggered_iff (s : Machine n) :
    watchdogTriggered s = true ↔ 64 < s.watchdog.toNat := by
  rw [watchdogTriggered, decide_eq_true_iff, gt_iff_lt, UInt8.lt_iff_toNat_lt]
  rfl

theorem not_watchdogTriggered_iff (s : Machine n) :
    (!watchdogTriggered s) = true ↔ s.watchdog.toNat ≤ 64 := by
  rw [Bool.not_eq_true', ← Bool.not_eq_true, watchdogTriggered_iff, Nat.not_lt]

theorem noQuit_concat (xs : List Iteration) (x : Iteration) :
    NoQuit (xs ++ [x]) ↔ x.event.quit = false := by
  simp [NoQuit]

theorem WatchdogInv.running {xs : List Iteration} {e : Loop n} (inv : WatchdogInv xs e)
    (hrun : e.run = true) : e.machine.watchdog.toNat ≤ 64 := (inv.goes.mp hrun).1

/-- The counter has passed 64 exactly when the watchdog is due. -/
theorem WatchdogInv.due_iff {xs : List Iteration} {e : Loop n} (inv : WatchdogInv xs e) :
    WatchdogDue xs ↔ 64 < e.machine.watchdog.toNat := by
  have hle := inv.le
  rw [watchdogDue_iff, ← inv.counts]
  omega

theorem kickedTo_le {watchdog : UInt8} {k : Nat} (h : watchdog.toNat ≤ k)
    (ls : List (UInt32 × UInt8)) : (kickedTo watchdog ls).toNat ≤ k := by
  rw [kickedTo]
  split
  · exact Nat.zero_le k
  · exact h

/-- At any point of a slice the counter is at most 64, so counting the slice does not wrap it. -/
theorem WatchdogInv.inside (size : SoundRamSize n) {ui : Ui} {xs : List Iteration} {e : Loop n}
    (inv : WatchdogInv xs e) (hrun : e.run = true) {ys : List Access} {s : Machine n}
    (h : run (Access.step ui) e.machine ys = some s) :
    s.watchdog.toNat ≤ 64 ∧ (tick s).watchdog.toNat = s.watchdog.toNat + 1 := by
  have hle : s.watchdog.toNat ≤ 64 := by
    rw [run_watchdog size h]
    exact kickedTo_le (inv.running hrun) _
  refine ⟨hle, ?_⟩
  rw [show (tick s).watchdog = s.watchdog + 1 from rfl, UInt8.toNat_add, UInt8.toNat_one]
  omega

theorem WatchdogInv.step (size : SoundRamSize n) {ui : Ui} {xs : List Iteration} {e e' : Loop n}
    {x : Iteration} (inv : WatchdogInv xs e) (h : Loop.iterate ui e x = some e') :
    WatchdogInv (xs ++ [x]) e' := by
  unfold Loop.iterate at h
  split at h
  next hrun =>
    obtain ⟨s, hs, heq⟩ := Option.bind_eq_some_iff.mp h
    obtain rfl := Option.some.inj heq
    obtain ⟨hle, htick⟩ := inv.inside size hrun hs
    have hwatchdog : (sliceEnd s x.event x.readable).2.watchdog = (tick s).watchdog :=
      sliceEnd_watchdog s x.event x.readable
    refine ⟨?_, ?_, ?_⟩
    · rw [hwatchdog, htick, slicesSinceKick, countSince_concat, run_watchdog size hs, kickedTo]
      split
      next hkick => rw [if_pos (show x.Kicked from hkick)]; rfl
      next hkick => rw [if_neg (show ¬ x.Kicked from hkick), inv.counts]; rfl
    · rw [hwatchdog]
      omega
    · rw [hwatchdog, noQuit_concat, ← not_watchdogTriggered_iff, ← Bool.not_eq_true',
        ← Bool.and_eq_true]
  next => cases h

/-- There is a next slice exactly when the loop goes on and the accesses of the guest are
defined. -/
theorem iterate_isSome_iff (ui : Ui) (e : Loop n) (x : Iteration) :
    (Loop.iterate ui e x).isSome ↔
      e.run = true ∧ (run (Access.step ui) e.machine x.accesses).isSome := by
  unfold Loop.iterate
  cases hrun : e.run with
  | false => simp
  | true =>
    rw [if_pos rfl, Option.bind_eq_bind]
    cases run (Access.step ui) e.machine x.accesses <;> simp

theorem watchdogInv_start {e : Loop n} (h : e.machine.watchdog = 0) (hrun : e.run = true) :
    WatchdogInv [] e := by
  have hzero : e.machine.watchdog.toNat = 0 := by rw [h]; rfl
  refine ⟨hzero, by omega, iff_of_true hrun ⟨by omega, ?_⟩⟩
  intro x hx
  cases hx

/-- **The watchdog is exact.** After any slices of the main loop the watchdog has been
triggered exactly when they are the first 65 without a kick or 64 have passed since the last
kicked one, and then there is no further slice. Before that the loop goes on, unless the last
event ends it: there is a next slice for any accesses of the guest that are defined. The counter
never exceeds 65, and counting a slice never wraps it. -/
theorem watchdog_exact (ui : Ui) (l : Loaded ramSize) (xs : List Iteration) :
    ∃ e₀, Loop.enter ui l = some e₀ ∧ ∀ e, run (Loop.iterate ui) e₀ xs = some e →
      (watchdogTriggered e.machine = true ↔ WatchdogDue xs) ∧
      (watchdogTriggered e.machine = true → ∀ x, Loop.iterate ui e x = none) ∧
      (e.run = true ↔ ¬ WatchdogDue xs ∧ NoQuit xs) ∧
      (∀ x, (Loop.iterate ui e x).isSome ↔
        e.run = true ∧ (run (Access.step ui) e.machine x.accesses).isSome) ∧
      e.machine.watchdog.toNat ≤ 65 ∧
      (e.run = true → ∀ ys s, run (Access.step ui) e.machine ys = some s →
        s.watchdog.toNat ≤ 64 ∧ (tick s).watchdog.toNat = s.watchdog.toNat + 1) := by
  have hn : videoBytes ≤ ramSize := by decide
  have size := soundRamSize_ramSize
  have hstart := startUp_eq ui hn l
  refine ⟨⟨_, true⟩, by rw [Loop.enter, hstart]; rfl, ?_⟩
  intro e h
  have inv : WatchdogInv xs e := run_history (watchdogInv_start rfl rfl)
    (fun _ _ _ _ inv hstep => inv.step size hstep) h
  rw [watchdogTriggered_iff]
  refine ⟨inv.due_iff.symm, ?_, ?_, iterate_isSome_iff ui e, inv.le, ?_⟩
  · intro hpast x
    rw [Loop.iterate, if_neg fun hrun => by have := inv.running hrun; omega]
  · rw [inv.goes, inv.due_iff, Nat.not_lt]
  · intro hrun ys s hs
    exact inv.inside size hrun hs

end Kyacopycat
