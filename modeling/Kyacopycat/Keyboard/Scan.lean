import Kyacopycat.Keyboard.Matrix
import Kyacopycat.Timer

/-!
The keyboard as the guest scans it.

The guest selects a row of the matrix by a write to `kb_wr` and reads the row at `0x80000a`,
unless `pr_cont` selects the configuration switches there. Meanwhile the front end calls
`change_keyreg_state`, and the main loop makes its own steps.

* `ScanEffect`: what steps do to the matrix and to the two latches.
* `keyboard_scan`: which bits of the row the guest reads are clear, after any run.
-/

namespace Kyacopycat

open Run History LastWrite

variable {n : Nat}

/-! ### Calls -/

/-- The last call for the cell had state 0. -/
def LastCallDown (ks : List KeyChange) (c : KeyCell) : Prop :=
  Since (fun k => keyCell k.y k.x = some c ∧ k.state = 0) (fun k => keyCell k.y k.x ≠ some c) ks

/-- The bit of a cell is clear exactly when the last call for it had state 0. -/
theorem matrix_eq_false_iff (ks : List KeyChange) (c : KeyCell) :
    matrix (ks.foldl KeyChange.apply (CArray.fill 0xFF)) c = false ↔ LastCallDown ks c := by
  rw [matrix_changeKeyregStates, matrix_fill, keyHistory, valueAt_events_eq_false_iff]
  simp only [LastCallDown, decide_eq_false_iff_not, ne_eq, not_not]

/-! ### Latches -/

/-- The registers that the guest writes and `cat_keyb` looks at. -/
inductive Latch where
  | prCont
  | kbWr
  deriving DecidableEq, Repr

def Latch.address : Latch → UInt32
  | .prCont => 0x80000e
  | .kbWr => 0x800002

def Latch.get (s : Machine n) : Latch → UInt8
  | .prCont => s.prCont
  | .kbWr => s.kbWr

/-- What byte writes leave in a latch that held `b`. -/
def Latch.after (r : Latch) (ls : List (UInt32 × UInt8)) (b : UInt8) : UInt8 :=
  (lastWrite ls r.address).getD b

theorem Latch.after_append (r : Latch) (ls ms : List (UInt32 × UInt8)) (b : UInt8) :
    r.after (ls ++ ms) b = r.after ms (r.after ls b) := by
  rw [after, lastWrite_append, Option.getD_or, after, after]

/-- A latch is set by the byte writes at its address and by no others. -/
theorem written_latch (size : SoundRamSize n) (ui : Ui) (s : Machine n) (l : UInt32 × UInt8)
    (r : Latch) :
    r.get (written ui s l.1 l.2) = if l.1 = r.address then l.2 else r.get s := by
  obtain ⟨a, value⟩ := l
  have hn := size.upper
  by_cases ha : a = r.address
  · subst ha
    have hram : ¬ InRam n r.address := by
      rw [InRam]
      cases r <;> simp only [Latch.address, UInt32.reduceToNat] <;> omega
    have hsvram : ¬ r.address &&& 0xE70001 = 0x40000 := by cases r <;> decide
    rw [if_pos rfl, written, if_neg hram, if_neg hsvram]
    cases r <;> rfl
  · rw [if_neg ha, written]
    split
    · dsimp only
      cases r <;> split <;> rfl
    split
    · cases r <;> rfl
    · unfold writeRegister writeOpr
      dsimp only
      cases r with
      | prCont =>
        rw [Latch.address] at ha
        rw [if_neg ha]
        repeat' split
        all_goals rfl
      | kbWr =>
        rw [Latch.address] at ha
        rw [if_neg ha]
        repeat' split
        all_goals rfl

theorem writtenAll_latch (size : SoundRamSize n) (ui : Ui) (s : Machine n)
    (ls : List (UInt32 × UInt8)) (r : Latch) :
    r.get (writtenAll ui s ls) = r.after ls (r.get s) := by
  induction ls using List.reverseRecOn with
  | nil => rw [Latch.after, lastWrite_nil]; rfl
  | append_singleton ls l ih =>
    rw [writtenAll_append, writtenAll_cons, writtenAll_nil, written_latch size, ih,
      Latch.after, Latch.after, lastWrite_concat]
    split <;> rfl

/-! ### Steps -/

/-- The call of `change_keyreg_state` that a step makes, if any. -/
def DeviceStep.key : DeviceStep → Option KeyChange
  | .event e => e.key
  | _ => none

/-- The calls of `change_keyreg_state` among steps. -/
def keyCalls (xs : List DeviceStep) : List KeyChange :=
  xs.filterMap DeviceStep.key

/-- What the steps `xs` do between `s` and `t` to all that `cat_keyb` depends on, except for
the switches. -/
structure ScanEffect (xs : List DeviceStep) (s t : Machine n) : Prop where
  kbRd : t.kbRd = (keyCalls xs).foldl KeyChange.apply s.kbRd
  latch : ∀ r : Latch, r.get t = r.after (xs.flatMap DeviceStep.writeLanes) (r.get s)

theorem ScanEffect.refl (s : Machine n) : ScanEffect [] s s where
  kbRd := rfl
  latch := fun r => by rw [List.flatMap_nil, Latch.after, lastWrite_nil, Option.getD_none]

theorem ScanEffect.append {xs ys : List DeviceStep} {s t u : Machine n} (h : ScanEffect xs s t)
    (h' : ScanEffect ys t u) : ScanEffect (xs ++ ys) s u where
  kbRd := by
    rw [keyCalls, List.filterMap_append, List.foldl_append]
    exact h.kbRd ▸ h'.kbRd
  latch := fun r => by rw [List.flatMap_append, Latch.after_append, ← h.latch, h'.latch]

/-- A step that writes nothing and makes no call. -/
theorem ScanEffect.of_eq {x : DeviceStep} {s t : Machine n} (hkey : x.key = none)
    (hwrites : x.writeLanes = []) (hkbRd : t.kbRd = s.kbRd)
    (hlatch : ∀ r : Latch, r.get t = r.get s) : ScanEffect [x] s t where
  kbRd := by
    rw [keyCalls, List.filterMap_cons_none hkey]
    exact hkbRd
  latch := fun r => by
    rw [List.flatMap_singleton, hwrites, hlatch, Latch.after, lastWrite_nil, Option.getD_none]

theorem DeviceStep.scanEffect (size : SoundRamSize n) {ui : Ui} {s t : Machine n}
    {x : DeviceStep} (h : x.step ui s = some t) : ScanEffect [x] s t := by
  cases x with
  | access x =>
    cases x with
    | read w a =>
      obtain ⟨⟨v, u⟩, hread, rfl⟩ := Option.map_eq_some_iff.mp h
      obtain ⟨rfl, -, -⟩ := m68kReadMemory_lanes size.upper hread
      rw [readEffects_eq]
      exact .of_eq rfl rfl rfl fun r => by cases r <;> rfl
    | write b =>
      rw [step, Access.step, b.step_eq size] at h
      obtain rfl := Option.some.inj h
      refine ⟨(writtenAll_sameDevices ui s b.lanes).kbRd, fun r => ?_⟩
      rw [List.flatMap_singleton]
      exact writtenAll_latch size ui s b.lanes r
  | tick =>
    obtain rfl := Option.some.inj h
    exact .of_eq rfl rfl rfl fun r => by cases r <;> rfl
  | display =>
    obtain rfl := Option.some.inj h
    obtain ⟨_, _, hdisp⟩ := displayStep_frame s
    rw [hdisp]
    exact .of_eq rfl rfl rfl fun r => by cases r <;> rfl
  | event e =>
    obtain rfl := Option.some.inj h
    cases hkey : e.key with
    | none =>
      rw [EventEffect.apply, hkey]
      exact .of_eq hkey rfl rfl fun _ => rfl
    | some k =>
      have hcalls : keyCalls [event e] = [k] := List.filterMap_cons_some (f := key) hkey
      rw [EventEffect.apply, hkey]
      refine ⟨?_, fun r => by cases r <;> rfl⟩
      rw [hcalls]
      rfl
  | serial readable =>
    obtain rfl := Option.some.inj h
    obtain ⟨_, _, _, _, hserial⟩ := serialStep_frame s readable
    rw [hserial]
    exact .of_eq rfl rfl rfl fun r => by cases r <;> rfl

theorem run_scanEffect (size : SoundRamSize n) {ui : Ui} {s t : Machine n} {xs : List DeviceStep}
    (h : run (DeviceStep.step ui) s xs = some t) : ScanEffect xs s t :=
  run_history (P := fun ys u => ScanEffect ys s u) (.refl s)
    (fun _ _ _ _ effect hstep => effect.append (DeviceStep.scanEffect size hstep)) h

/-! ### What the guest reads -/

/-- A byte read of `0x80000a` is always defined and changes nothing. -/
theorem m68kReadMemory8_keyb (hn : n ≤ 0x400000) (s : Machine n) :
    m68kReadMemory8 s 0x80000a = some ((catKeyb s).toUInt32, s) := by
  rw [m68kReadMemory8_register hn s (by decide)]
  rfl

/-- A single bit in `kb_wr` selects the row at its position. -/
theorem catKeyb_of_select {s : Machine n} {r : Fin 8} (hpr : s.prCont ≠ 0x09)
    (hkb : s.kbWr.toNat = 2 ^ r.val) : catKeyb s = s.kbRd r := by
  have hselect : s.kbWr = UInt8.ofNat (2 ^ r.val) := by rw [← hkb, UInt8.ofNat_toNat]
  rw [catKeyb, if_neg hpr, hselect]
  match r with
  | 0 | 1 | 2 | 3 | 4 | 5 | 6 | 7 => rfl

/-- **The keyboard scan.** After any run of bus accesses, calls of `change_keyreg_state` and
steps of the main loop the two latches hold the last byte written at their addresses. A read
of `0x80000a`, alone or as a lane of a wide read, is then the byte `b`, and if `pr_cont` is
not 9 and `kb_wr` has the single bit `r` set, bit `c` of `b` is clear exactly when the last
call for the cell of row `r` and column `c` had state 0. Calls for different cells commute,
and a call with a coordinate out of range changes nothing. -/
theorem keyboard_scan :
    (∀ (ui : Ui) (l : Loaded ramSize) (xs : List DeviceStep),
      ∃ s, startUp ui l = some s ∧ ∀ t, run (DeviceStep.step ui) s xs = some t →
        t.prCont = (lastWrite (xs.flatMap DeviceStep.writeLanes) 0x80000e).getD 0 ∧
        t.kbWr = (lastWrite (xs.flatMap DeviceStep.writeLanes) 0x800002).getD 0 ∧
        ∃ b : UInt8, m68kReadMemory8 t 0x80000a = some (b.toUInt32, t) ∧
          (∀ w a v u k, m68kReadMemory w t (BusAddress.addr a) = some (v, u) →
            laneAt w a 0x80000a = some k → laneByte w v k = b) ∧
          ∀ r c : Fin 8, t.prCont ≠ 0x09 → t.kbWr.toNat = 2 ^ r.val →
            (b.toNat.testBit c = false ↔ LastCallDown (keyCalls xs) (r, c))) ∧
    (∀ (k k' : KeyChange) (kbRd : CArray UInt8 8), keyCell k.y k.x ≠ keyCell k'.y k'.x →
      k'.apply (k.apply kbRd) = k.apply (k'.apply kbRd)) ∧
    ∀ (k : KeyChange) (kbRd : CArray UInt8 8), k.y > 7 ∨ k.x > 7 → k.apply kbRd = kbRd := by
  have hn : videoBytes ≤ ramSize := by decide
  have size := soundRamSize_ramSize
  refine ⟨?_, ?_, ?_⟩
  · intro ui l xs
    refine ⟨_, startUp_eq ui hn l, ?_⟩
    intro t h
    have effect := run_scanEffect size h
    refine ⟨effect.latch .prCont, effect.latch .kbWr, catKeyb t,
      m68kReadMemory8_keyb size.upper t, ?_, ?_⟩
    · intro w a v u k hread hlane
      refine laneByte_of_byteValue size.upper hread hlane ?_
      rw [byteValue, m68kReadMemory8_keyb size.upper]
      rfl
    · intro r c hpr hkb
      have hkbRd : t.kbRd = (keyCalls xs).foldl KeyChange.apply (CArray.fill 0xFF) := effect.kbRd
      rw [catKeyb_of_select hpr hkb, hkbRd]
      exact matrix_eq_false_iff (keyCalls xs) (r, c)
  · intro k k' kbRd hne
    exact KeyChange.apply_comm hne kbRd
  · intro k kbRd hout
    have hnone := (keyCell_isNone_iff k.y k.x).mpr hout
    exact changeKeyregState_of_none kbRd hnone k.state

end Kyacopycat
