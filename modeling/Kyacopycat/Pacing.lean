import Mathlib.Algebra.Order.Ring.Int

/-!
The pacing of the main loop, with `UNIX_TIMING`.

At the end of a slice `main` takes the microseconds since its start and sleeps for what they
leave of a budget, `(int)(6541/speed)`. It keeps the elapsed time in a `uint32_t`, and C
converts the budget to `unsigned int` to compare it with that and to subtract that from it.
Option `-x` takes any speed other than 0, so the budget may be any `int`.

* `SliceTime.pause_cases`: the pause in terms of the two 32-bit numbers.
* `pause_exact_iff`: for which budgets and times the pause is what is left of the budget.
* `pause_of_readings`: the pause between two readings of the clock in ordinary use.
-/

namespace Kyacopycat

/-! ### The end of a slice -/

/-- The microsecond counts `then` and `now` of a slice. -/
structure SliceTime where
  start : UInt64
  stop : UInt64
  le : start ≤ stop

/-- The microseconds that have passed. -/
def SliceTime.elapsed (t : SliceTime) : Nat := t.stop.toNat - t.start.toNat

/-- What `usleep` is called with at the end of a slice, if it is. -/
def SliceTime.pause (t : SliceTime) (budget : Int32) : Option UInt32 :=
  let totalUsec : UInt32 := (t.stop - t.start).toUInt32
  -- both operands are `unsigned int` once the budget has been converted
  if totalUsec < budget.toUInt32 then some (budget.toUInt32 - totalUsec) else none

/-- The conversion of an `int` to `unsigned int`. -/
theorem toNat_toUInt32 (x : Int32) : (x.toUInt32.toNat : Int) = x.toInt % 2 ^ 32 := by
  have hmod : x.toInt = (x.toUInt32.toNat : Int).bmod (2 ^ 32) :=
    BitVec.toInt_eq_toNat_bmod x.toBitVec
  have hlt := x.toUInt32.toNat_lt
  rw [hmod]
  exact (Int.emod_eq_of_lt (by omega) (by omega)).symm.trans (Int.bmod_emod).symm

/-- The pause is the difference of two remainders modulo 2^32, where that is positive. -/
theorem SliceTime.pause_cases (t : SliceTime) (budget : Int32) :
    (t.pause budget = none ∧ budget.toInt % 2 ^ 32 ≤ (t.elapsed : Int) % 2 ^ 32) ∨
      ∃ p, t.pause budget = some p ∧
        (p.toNat : Int) = budget.toInt % 2 ^ 32 - (t.elapsed : Int) % 2 ^ 32 ∧
        (t.elapsed : Int) % 2 ^ 32 < budget.toInt % 2 ^ 32 := by
  have htotal : (t.stop - t.start).toUInt32.toNat = t.elapsed % 2 ^ 32 := by
    rw [UInt64.toNat_toUInt32, UInt64.toNat_sub_of_le _ _ t.le, elapsed]
  have hbudget := toNat_toUInt32 budget
  unfold pause
  dsimp only
  split
  next hlt =>
    have hle := UInt32.le_of_lt hlt
    rw [UInt32.lt_iff_toNat_lt, htotal] at hlt
    refine .inr ⟨_, rfl, ?_, ?_⟩
    · rw [UInt32.toNat_sub_of_le _ _ hle, htotal]
      omega
    · omega
  next hle =>
    rw [UInt32.lt_iff_toNat_lt, htotal] at hle
    refine .inl ⟨rfl, ?_⟩
    omega

/-! ### Exact pauses -/

/-- The pause is what the elapsed time leaves of the budget, and there is none if it leaves
nothing. -/
structure ExactPause (budget : Int) (elapsed : Nat) (pause : Option UInt32) : Prop where
  sleeps : elapsed < budget → ∃ p, pause = some p ∧ (p.toNat : Int) = budget - elapsed
  spent : budget ≤ elapsed → pause = none
  bounded : ∀ p, pause = some p → (p.toNat : Int) ≤ max budget 0

theorem exactPause_none_iff {budget : Int} {elapsed : Nat} :
    ExactPause budget elapsed none ↔ budget ≤ elapsed := by
  constructor
  · intro h
    refine Int.not_lt.mp fun hlt => ?_
    obtain ⟨p, hp, -⟩ := h.sleeps hlt
    cases hp
  · intro hle
    constructor
    · intro hlt
      exact absurd hle (Int.not_le.mpr hlt)
    · intro _
      rfl
    · intro p hp
      cases hp

theorem exactPause_some_iff {budget : Int} {elapsed : Nat} {p : UInt32} :
    ExactPause budget elapsed (some p) ↔
      elapsed < budget ∧ (p.toNat : Int) = budget - elapsed := by
  constructor
  · intro h
    have hlt : elapsed < budget := by
      refine Int.not_le.mp fun hle => ?_
      cases h.spent hle
    obtain ⟨q, hq, hrest⟩ := h.sleeps hlt
    obtain rfl := Option.some.inj hq
    exact ⟨hlt, hrest⟩
  · rintro ⟨hlt, hrest⟩
    constructor
    · intro _
      exact ⟨p, rfl, hrest⟩
    · intro hle
      exact absurd hle (Int.not_le.mpr hlt)
    · intro q hq
      obtain rfl := Option.some.inj hq
      omega

/-- The pause is exact when the two remainders compare as the numbers do. -/
theorem SliceTime.exactPause_iff (t : SliceTime) (budget : Int32) :
    ExactPause budget.toInt t.elapsed (t.pause budget) ↔
      ((t.elapsed : Int) % 2 ^ 32 < budget.toInt % 2 ^ 32 ↔ t.elapsed < budget.toInt) := by
  have hlow := budget.le_toInt
  have hhigh := budget.toInt_lt
  rcases t.pause_cases budget with ⟨hnone, hle⟩ | ⟨p, hsome, hp, hlt⟩
  · rw [hnone, exactPause_none_iff]
    omega
  · rw [hsome, exactPause_some_iff]
    omega

/-- In 32 bits without a sign the elapsed time is on the same side of the budget. -/
def SameSide (budget : Int) (elapsed : Nat) : Prop :=
  if 0 ≤ budget then elapsed < 2 ^ 32 ∨ budget ≤ (elapsed % 2 ^ 32 : Nat)
  else budget + 2 ^ 32 ≤ (elapsed % 2 ^ 32 : Nat)

/-- **When a slice is paced exactly.** For every budget and all timestamps in order the loop
sleeps for what the elapsed time leaves of the budget, and not at all when that is nothing,
under exactly one condition. If the budget is not negative, the elapsed time is below 2^32
microseconds or its low 32 bits reach the budget. If the budget is negative, the low 32 bits
of the elapsed time reach the budget plus 2^32. -/
theorem pause_exact_iff (t : SliceTime) (budget : Int32) :
    ExactPause budget.toInt t.elapsed (t.pause budget) ↔ SameSide budget.toInt t.elapsed := by
  have hlow := budget.le_toInt
  have hhigh := budget.toInt_lt
  rw [t.exactPause_iff, SameSide]
  split <;> omega

-- a host that was suspended for 2^32 microseconds and five more
example : (SliceTime.mk 0 4294967301 (by decide)).pause 6541 = some 6536 := by decide

/-- At speed -1, whose budget is -6541 microseconds, a slice of a millisecond is followed by a
pause of more than an hour. -/
theorem not_pause_exact_negative :
    ¬ ∀ (t : SliceTime) (budget : Int32),
      ExactPause budget.toInt t.elapsed (t.pause budget) := by
  intro all
  have bounded := (all ⟨0, 1000, by decide⟩ (-6541)).bounded 4294959755 (by decide)
  exact absurd bounded (by decide)

/-! ### Readings of the clock -/

/-- What `gettimeofday` reads: a time whose microseconds a `long` can count. -/
structure Timeval where
  tvSec : Int64
  tvUsec : Int64
  sec : 0 ≤ tvSec.toInt ∧ tvSec.toInt < 2 ^ 43
  usec : 0 ≤ tvUsec.toInt ∧ tvUsec.toInt < 1000000

/-- The count that `main` makes of a reading. -/
def Timeval.count (t : Timeval) : UInt64 := (t.tvSec * 1000000 + t.tvUsec).toUInt64

theorem Timeval.toNat_count (t : Timeval) :
    (t.count.toNat : Int) = t.tvSec.toInt * 1000000 + t.tvUsec.toInt := by
  obtain ⟨hsec, hsec'⟩ := t.sec
  obtain ⟨husec, husec'⟩ := t.usec
  have hproduct : (t.tvSec * 1000000).toInt = t.tvSec.toInt * 1000000 := by
    rw [Int64.toInt_mul, show (1000000 : Int64).toInt = 1000000 from rfl]
    exact Int.bmod_eq_of_le (by omega) (by omega)
  have hsum : (t.tvSec * 1000000 + t.tvUsec).toInt = t.tvSec.toInt * 1000000 + t.tvUsec.toInt := by
    rw [Int64.toInt_add, hproduct]
    exact Int.bmod_eq_of_le (by omega) (by omega)
  have hpos : 0 ≤ t.tvSec * 1000000 + t.tvUsec := by
    rw [Int64.le_iff_toInt_le, hsum]
    exact Int.add_nonneg (Int.mul_nonneg hsec (by decide)) husec
  rw [count, Int64.toNat_toUInt64_of_le hpos, ← hsum]
  exact Int.toNat_of_nonneg (Int64.le_iff_toInt_le.mp hpos)

/-- With a budget that is not negative, a slice is paced exactly if its end is read less than
2^32 microseconds after its start. -/
theorem pause_of_readings {start stop : Timeval} (le : start.count ≤ stop.count) {budget : Int32}
    (hbudget : 0 ≤ budget.toInt)
    (hshort : (stop.tvSec.toInt - start.tvSec.toInt) * 1000000
      + (stop.tvUsec.toInt - start.tvUsec.toInt) < 2 ^ 32) :
    ExactPause budget.toInt (stop.count.toNat - start.count.toNat)
      ((SliceTime.mk start.count stop.count le).pause budget) := by
  have hstart := start.toNat_count
  have hstop := stop.toNat_count
  have hhigh := budget.toInt_lt
  refine (SliceTime.exactPause_iff ⟨_, _, le⟩ budget).mpr ?_
  simp only [SliceTime.elapsed]
  omega

end Kyacopycat
