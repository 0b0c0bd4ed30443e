import Kyacopycat.Devices
import Kyacopycat.Lib.History

/-!
The timer tick as the guest sees it.

Every tick sets bit 7 of the interrupt status and puts the level of the timer input into the
input port change register; reading either register clears what the tick has put there.

* `TickInv`: the two registers and the tick counter against the history of a run.
* `ticks_exact`: what a read of either register returns, after any run.
-/

namespace Kyacopycat

open Run History

variable {n : Nat}

/-! ### History -/

/-- The number of ticks so far. -/
def ticks (xs : List DeviceStep) : Nat :=
  xs.countP DeviceStep.isTick

/-- There was a tick after which the register at `r` has not been read. -/
def TickedSince (r : UInt32) (xs : List DeviceStep) : Prop :=
  Since (fun x => x.isTick = true) (fun x => x.reads r = false) xs

theorem tickedSince_concat (r : UInt32) (xs : List DeviceStep) (x : DeviceStep) :
    TickedSince r (xs ++ [x]) ↔ x.isTick = true ∨ (x.reads r = false ∧ TickedSince r xs) :=
  since_concat xs x

theorem ticks_concat (xs : List DeviceStep) (x : DeviceStep) :
    ticks (xs ++ [x]) = if x.isTick then ticks xs + 1 else ticks xs := by
  rw [ticks, List.countP_append, List.countP_singleton]
  split <;> rfl

/-! ### The registers -/

/-- The input port change register after the `k`-th tick. -/
def ipcrAfter (k : Nat) : UInt8 := 0x40 + if k % 2 = 1 then 0x04 else 0

/-- The tick counter wraps at an even number, so its parity is that of the number of ticks. -/
theorem tickIpcr_ofNat (k : Nat) : tickIpcr (UInt16.ofNat k) = ipcrAfter k := by
  have hmod : (UInt16.ofNat k % 2).toNat = k % 2 := by
    rw [UInt16.toNat_mod, UInt16.toNat_ofNat']
    exact Nat.mod_mod_of_dvd k (by decide)
  have hparity : UInt16.ofNat k % 2 = if k % 2 = 1 then 1 else 0 := by
    rw [← UInt16.toNat_inj, hmod]
    rcases Nat.mod_two_eq_zero_or_one k with h | h <;> rw [h] <;> rfl
  rw [tickIpcr, hparity, ipcrAfter]
  split <;> rfl

/-- The registers after the steps `xs`. -/
structure TickInv (xs : List DeviceStep) (t : Machine n) : Prop where
  trg : t.trg = UInt16.ofNat (ticks xs)
  isr : t.duartIsr &&& 0x80 ≠ 0 ↔ TickedSince 0x81000b xs
  ipcr : TickedSince 0x810009 xs → t.duartIpcr = ipcrAfter (ticks xs)
  ipcrRead : ¬ TickedSince 0x810009 xs → t.duartIpcr = 0

theorem TickInv.step {xs : List DeviceStep} {x : DeviceStep} {s t : Machine n}
    (inv : TickInv xs s) (h : DeviceEffect x s t) : TickInv (xs ++ [x]) t := by
  have htrg : t.trg = UInt16.ofNat (ticks (xs ++ [x])) := by
    rw [h.trg, ticks_concat, inv.trg]
    split
    · rw [UInt16.ofNat_add]
      rfl
    · rfl
  by_cases htick : x.isTick = true
  · have hcount := htrg
    rw [h.trg, if_pos htick] at hcount
    refine ⟨htrg, ?_, fun _ => ?_, fun none => ?_⟩
    · rw [h.duartIsr, if_pos htick, BitField.or_and_of_and rfl]
      simp [tickedSince_concat, htick]
    · rw [h.duartIpcr, if_pos htick, hcount, tickIpcr_ofNat]
    · exact absurd ((tickedSince_concat _ _ _).mpr (.inl htick)) none
  · have hsince : ∀ r, TickedSince r (xs ++ [x]) ↔ x.reads r = false ∧ TickedSince r xs := by
      intro r
      rw [tickedSince_concat, or_iff_right htick]
    have hticks : ticks (xs ++ [x]) = ticks xs := by rw [ticks_concat, if_neg htick]
    have hipcr := h.duartIpcr
    rw [if_neg htick] at hipcr
    refine ⟨htrg, ?_, fun since => ?_, fun none => ?_⟩
    · rw [hsince, ← inv.isr, h.duartIsr, if_neg htick]
      split
      next hread =>
        rw [UInt8.and_assoc, show (0x3B : UInt8) &&& 0x80 = 0 from rfl, UInt8.and_zero]
        simp [hread]
      next hread =>
        rw [Bool.not_eq_true] at hread
        rw [and_iff_right hread]
        refine not_congr (Eq.congr_left ?_)
        split
        · exact (BitField.or_and_of_and rfl 0x02).trans UInt8.or_zero
        · rfl
    · obtain ⟨hread, since⟩ := (hsince _).mp since
      rw [hipcr, if_neg (by simp [hread]), hticks, inv.ipcr since]
    · rw [hipcr]
      split
      next => rfl
      next hread =>
        rw [Bool.not_eq_true] at hread
        exact inv.ipcrRead fun since => none ((hsince _).mpr ⟨hread, since⟩)

theorem tickInv_start {s : Machine n} (htrg : s.trg = 0) (hisr : s.duartIsr = 0x19)
    (hipcr : s.duartIpcr = 0) : TickInv [] s where
  trg := htrg
  isr := by
    rw [hisr]
    exact iff_of_false (by decide) not_since_nil
  ipcr := fun since => absurd since not_since_nil
  ipcrRead := fun _ => hipcr

/-! ### What the guest reads -/

theorem byteValue_isr (hn : n ≤ 0x400000) (s : Machine n) :
    byteValue s 0x81000b = some s.duartIsr.toUInt32 := by
  rw [byteValue, m68kReadMemory8_register hn s (by decide)]
  rfl

theorem byteValue_ipcr (hn : n ≤ 0x400000) (s : Machine n) :
    byteValue s 0x810009 = some s.duartIpcr.toUInt32 := by
  rw [byteValue, m68kReadMemory8_register hn s (by decide)]
  rfl

/-- The lane of a read at a register holds what the register holds. -/
theorem laneByte_of_byteValue (hn : n ≤ 0x400000) {w : Width} {a : BusAddress} {s t : Machine n}
    {v r : UInt32} {b : UInt8} {k : Nat} (h : m68kReadMemory w s a.addr = some (v, t))
    (hlane : laneAt w a r = some k) (hr : byteValue s r = some b.toUInt32) :
    laneByte w v k = b := by
  obtain ⟨hk, haddr⟩ := laneAt_eq_some hlane
  have hbyte := m68kReadMemory_bytes hn h hk
  rw [haddr, hr] at hbyte
  exact (UInt8.toUInt32_inj.mp (Option.some.inj hbyte)).symm

/-- A read without a lane at a register leaves what the register reads as. -/
theorem byteValue_of_not_lane (hn : n ≤ 0x400000) {w : Width} {a : BusAddress} {s t : Machine n}
    {v r : UInt32} (h : m68kReadMemory w s a.addr = some (v, t)) (hlane : laneAt w a r = none) :
    byteValue t r = byteValue s r := by
  obtain ⟨rfl, -, -⟩ := m68kReadMemory_lanes hn h
  exact byteValue_readEffects s (laneAt_eq_none_iff.mp hlane)

/-- A read with a lane at an address that is far from the ROM is defined. -/
theorem isSome_of_lane (s : Machine n) {w : Width} {a : BusAddress} {r : UInt32} {k : Nat}
    (hlane : laneAt w a r = some k)
    (far : ∀ i < 4, ∀ j < 4, r - UInt32.ofNat i + UInt32.ofNat j &&& 0xE40000 ≠ 0) :
    (m68kReadMemory w s a.addr).isSome := by
  obtain ⟨hk, haddr⟩ := laneAt_eq_some hlane
  have hlanes := w.lanes_le
  have hbase : a.addr = r - UInt32.ofNat k := by
    rw [← haddr, UInt32.add_sub_cancel]
  rw [m68kReadMemory_isSome_iff, hbase]
  intro j hj hole
  exact far k (by omega) j (by omega) hole.1

/-- **Timer ticks are neither lost nor seen twice.** After any run, a read of the interrupt
status returns bit 7 set exactly when there was a tick since the last read of it, and a read
of the input port change register returns 0 without a tick since the last read of it and
otherwise the level that the parity of all ticks so far gives. Both hold for the lanes of
wide reads, which are always defined, and a read without a lane at a register does not change
what it reports. -/
theorem ticks_exact (ui : Ui) (l : Loaded ramSize) (xs : List DeviceStep) :
    ∃ s, startUp ui l = some s ∧ ∀ t, run (DeviceStep.step ui) s xs = some t →
      (∀ w a k, laneAt w a 0x81000b = some k ∨ laneAt w a 0x810009 = some k →
        (m68kReadMemory w t (BusAddress.addr a)).isSome) ∧
      ∀ w a v u, m68kReadMemory w t (BusAddress.addr a) = some (v, u) →
        (∀ k, laneAt w a 0x81000b = some k →
          (laneByte w v k &&& 0x80 ≠ 0 ↔ TickedSince 0x81000b xs)) ∧
        (∀ k, laneAt w a 0x810009 = some k →
          (TickedSince 0x810009 xs →
            laneByte w v k = 0x40 + if ticks xs % 2 = 1 then 0x04 else 0) ∧
          (¬ TickedSince 0x810009 xs → laneByte w v k = 0)) ∧
        ∀ r, laneAt w a r = none → byteValue u r = byteValue t r := by
  have hn : videoBytes ≤ ramSize := by decide
  have size := soundRamSize_ramSize
  refine ⟨_, startUp_eq ui hn l, ?_⟩
  intro t h
  constructor
  · rintro w a k (hlane | hlane)
    · exact isSome_of_lane t hlane (by decide)
    · exact isSome_of_lane t hlane (by decide)
  intro w a v u hread
  have inv : TickInv xs t := run_history (tickInv_start rfl rfl rfl)
    (fun ys u x v inv hstep => inv.step (DeviceStep.effect size hstep)) h
  refine ⟨?_, ?_, ?_⟩
  · intro k hlane
    rw [laneByte_of_byteValue size.upper hread hlane (byteValue_isr size.upper t)]
    exact inv.isr
  · intro k hlane
    rw [laneByte_of_byteValue size.upper hread hlane (byteValue_ipcr size.upper t)]
    exact ⟨inv.ipcr, inv.ipcrRead⟩
  · intro r hlane
    exact byteValue_of_not_lane size.upper hread hlane

end Kyacopycat
