import Kyacopycat.Bus.ReadEffect
import Kyacopycat.Display.Render
import Kyacopycat.MainLoop

/-!
The window of the Xlib build against the video control register.

The display step draws when video RAM was written since it last drew, and clears the window
once when the display has been blanked. Nothing is drawn because the display has been
unblanked, so a picture that was there before comes back only with the next video write.

* `VideoEffect`: what the accesses of a slice do to the display state.
* `iterate_display`: what an iteration does to the window.
* `windowFollows_iff`: in which runs the window follows the register.
-/

namespace Kyacopycat

open Run

variable {n : Nat}

/-! ### The display state in a slice -/

/-- The byte writes of an access. -/
def Access.writeLanes : Access → List (UInt32 × UInt8)
  | .read _ _ => []
  | .write b => b.lanes

/-- The byte writes of a slice. -/
def Slice.writeLanes (x : Slice) : List (UInt32 × UInt8) :=
  x.accesses.flatMap Access.writeLanes

/-- One of the byte writes is to the video RAM. -/
def WritesVideo (ls : List (UInt32 × UInt8)) : Prop :=
  ∃ l ∈ ls, InVideo l.1

instance (ls : List (UInt32 × UInt8)) : Decidable (WritesVideo ls) := by
  unfold WritesVideo; infer_instance

theorem writesVideo_append {ls ms : List (UInt32 × UInt8)} :
    WritesVideo (ls ++ ms) ↔ WritesVideo ls ∨ WritesVideo ms := by
  simp only [WritesVideo, List.mem_append, or_and_right, exists_or]

/-- What byte writes do to the display state between `s` and `t`. -/
structure VideoEffect (ls : List (UInt32 × UInt8)) (s t : Machine n) : Prop where
  vBlank : t.vBlank = ls.foldl blankStep s.vBlank
  vramTouched : t.vramTouched = if WritesVideo ls then 1 else s.vramTouched
  framebuffer : ¬ WritesVideo ls → t.framebuffer = s.framebuffer

theorem VideoEffect.nil {s t : Machine n} (hb : t.vBlank = s.vBlank)
    (hv : t.vramTouched = s.vramTouched) (hf : t.framebuffer = s.framebuffer) :
    VideoEffect [] s t :=
  ⟨hb, by simpa [WritesVideo] using hv, fun _ => hf⟩

theorem VideoEffect.append {ls ms : List (UInt32 × UInt8)} {s t u : Machine n}
    (h : VideoEffect ls s t) (h' : VideoEffect ms t u) : VideoEffect (ls ++ ms) s u := by
  refine ⟨by rw [h'.vBlank, h.vBlank, List.foldl_append], ?_, fun none => ?_⟩
  · rw [h'.vramTouched, h.vramTouched]
    by_cases hm : WritesVideo ms
    · rw [if_pos hm, if_pos (writesVideo_append.mpr (.inr hm))]
    · rw [if_neg hm]
      simp only [writesVideo_append, hm, or_false]
  · rw [writesVideo_append, not_or] at none
    rw [h'.framebuffer none.2, h.framebuffer none.1]

theorem VideoEffect.byte (size : SoundRamSize n) (ui : Ui) (s : Machine n) (l : UInt32 × UInt8) :
    VideoEffect [l] s (written ui s l.1 l.2) := by
  refine ⟨written_vBlank size ui s l, ?_, fun none => ?_⟩
  · rw [written_vramTouched size]
    simp [WritesVideo]
  · rw [written_framebuffer size, if_neg fun h => none ⟨l, by simp, h⟩]

theorem VideoEffect.bytes (size : SoundRamSize n) (ui : Ui) (s : Machine n)
    (ls : List (UInt32 × UInt8)) : VideoEffect ls s (writtenAll ui s ls) := by
  induction ls generalizing s with
  | nil => exact .nil rfl rfl rfl
  | cons l ls ih => exact (VideoEffect.byte size ui s l).append (ih _)

theorem VideoEffect.access (size : SoundRamSize n) (ui : Ui) {s t : Machine n} {x : Access}
    (h : x.step ui s = some t) : VideoEffect x.writeLanes s t := by
  cases x with
  | read w a =>
    obtain ⟨⟨v, u⟩, hread, rfl⟩ := Option.map_eq_some_iff.mp h
    obtain ⟨rfl, -, -⟩ := m68kReadMemory_lanes size.upper hread
    rw [readEffects_eq]
    exact .nil rfl rfl rfl
  | write b =>
    rw [Access.step, b.step_eq size] at h
    exact Option.some.inj h ▸ .bytes size ui s b.lanes

theorem VideoEffect.run (size : SoundRamSize n) (ui : Ui) {s t : Machine n} {xs : List Access}
    (h : Run.run (Access.step ui) s xs = some t) :
    VideoEffect (xs.flatMap Access.writeLanes) s t := by
  induction xs generalizing s with
  | nil => exact Option.some.inj h ▸ .nil rfl rfl rfl
  | cons x xs ih =>
    obtain ⟨u, hu, rest⟩ := Option.bind_eq_some_iff.mp h
    exact (VideoEffect.access size ui hu).append (ih rest)

/-- The guest blanks and unblanks; only the display step gets past 1. -/
theorem foldl_blankStep (ls : List (UInt32 × UInt8)) (vBlank : UInt8) :
    ls.foldl blankStep vBlank = vBlank ∨ ls.foldl blankStep vBlank = 0 ∨
      ls.foldl blankStep vBlank = 1 := by
  induction ls generalizing vBlank with
  | nil => exact .inl rfl
  | cons l ls ih =>
    rw [List.foldl_cons]
    rcases ih (blankStep vBlank l) with h | h
    · rw [h, blankStep]
      split
      · split
        · exact .inr (.inr rfl)
        · exact .inr (.inl rfl)
      · exact .inl rfl
    · exact .inr h

/-! ### The window in an iteration -/

/-- What the display step draws, and the display state it leaves. -/
inductive Displayed (s t : Machine n) (window window' : CArray UInt8 videoBytes) : Prop where
  | drawn (shown : s.vBlank = 0) (touched : s.vramTouched ≠ 0)
    (vBlank : t.vBlank = 0) (picture : window' = bitmapFromData s.framebuffer)
  | kept (shown : s.vBlank = 0) (untouched : s.vramTouched = 0)
    (vBlank : t.vBlank = 0) (same : window' = window)
  | cleared (blanked : s.vBlank = 1) (vBlank : t.vBlank = 2) (blank : window' = blankWindow)
  | stayed (later : s.vBlank ≠ 0 ∧ s.vBlank ≠ 1) (vBlank : t.vBlank = s.vBlank)
    (same : window' = window)

theorem displayStep_displayed (s : Machine n) (window : CArray UInt8 videoBytes) :
    (displayStep s).2.framebuffer = s.framebuffer ∧
      Displayed s (displayStep s).2 window (windowAfter window (displayStep s).1) := by
  unfold displayStep
  split
  next h0 =>
    split
    next ht => exact ⟨rfl, .drawn h0 ht h0 rfl⟩
    next ht => exact ⟨rfl, .kept h0 (not_not.mp ht) h0 rfl⟩
  next h0 =>
    split
    next h1 => exact ⟨rfl, .cleared h1 (by rw [h1]; rfl) rfl⟩
    next h1 => exact ⟨rfl, .stayed ⟨h0, h1⟩ rfl rfl⟩

/-- The steps before and after the display step leave the display state alone. -/
theorem Displayed.congr {s s' t t' : Machine n} {window window' : CArray UInt8 videoBytes}
    (h : Displayed s t window window') (hb : s'.vBlank = s.vBlank)
    (hv : s'.vramTouched = s.vramTouched) (hf : s'.framebuffer = s.framebuffer)
    (ht : t'.vBlank = t.vBlank) : Displayed s' t' window window' := by
  cases h with
  | drawn shown touched vBlank picture =>
    exact .drawn (hb.trans shown) (hv ▸ touched) (ht.trans vBlank) (hf ▸ picture)
  | kept shown untouched vBlank same =>
    exact .kept (hb.trans shown) (hv.trans untouched) (ht.trans vBlank) same
  | cleared blanked vBlank blank => exact .cleared (hb.trans blanked) (ht.trans vBlank) blank
  | stayed later vBlank same => exact .stayed (hb ▸ later) (ht.trans (vBlank.trans hb.symm)) same

/-- What an iteration does to the window. -/
theorem iterate_display {remap : UInt8} {e e' : Emulator n} {x : Slice}
    (h : iterate remap e x = some e') :
    ∃ s, run (Access.step .xlib) e.machine x.accesses = some s ∧
      e'.machine.framebuffer = s.framebuffer ∧
      Displayed s e'.machine e.window e'.window := by
  unfold iterate at h
  split at h
  · obtain ⟨s, hs, heq⟩ := Option.bind_eq_some_iff.mp h
    have hmachine : serialStep ((xlibEvent remap x.event).apply (displayStep (tick s)).2)
        x.readable = e'.machine := congrArg Emulator.machine (Option.some.inj heq)
    have hwindow : windowAfter e.window (displayStep (tick s)).1 = e'.window :=
      congrArg Emulator.window (Option.some.inj heq)
    rw [← hmachine, ← hwindow]
    obtain ⟨hfb, hdisp⟩ := displayStep_displayed (tick s) e.window
    obtain ⟨kbRd, hevent⟩ := (xlibEvent remap x.event).apply_frame (displayStep (tick s)).2
    rw [hevent]
    obtain ⟨_, _, _, _, hserial⟩ :=
      serialStep_frame { (displayStep (tick s)).2 with kbRd } x.readable
    rw [hserial]
    exact ⟨s, hs, hfb, hdisp.congr rfl rfl rfl rfl⟩
  · cases h

/-! ### Following the register -/

/-- The window shows the framebuffer, or nothing while the display is blanked. What an
iteration does after its display step changes no part of this. -/
def WindowFollows (e : Emulator n) : Prop :=
  e.window = if e.machine.vBlank = 0 then bitmapFromData e.machine.framebuffer else blankWindow

/-- What holds between iterations while the window follows the register. -/
structure WindowInv (e : Emulator n) : Prop where
  showing : e.machine.vBlank = 0 →
    e.machine.vramTouched ≠ 0 ∨ e.window = bitmapFromData e.machine.framebuffer
  blanked : e.machine.vBlank ≠ 0 → e.machine.vBlank = 2 ∧ e.window = blankWindow

/-- If the slice leaves a display unblanked that was blanked before it, then a video write
is there to be drawn, from this slice or left over from earlier ones, or the framebuffer
has no bit set. -/
def UnblanksWithWrite (e : Emulator n) (x : Slice) : Prop :=
  e.machine.vBlank ≠ 0 → x.writeLanes.foldl blankStep e.machine.vBlank = 0 →
    e.machine.vramTouched ≠ 0 ∨ WritesVideo x.writeLanes ∨
      bitmapFromData e.machine.framebuffer = blankWindow

/-- The display state after a slice without video writes. -/
theorem VideoEffect.untouched {ls : List (UInt32 × UInt8)} {s t : Machine n}
    (h : VideoEffect ls s t) (ht : t.vramTouched = 0) :
    ¬ WritesVideo ls ∧ s.vramTouched = 0 ∧ t.framebuffer = s.framebuffer := by
  have hv := h.vramTouched
  split at hv
  next => simp [ht] at hv
  next none => exact ⟨none, hv.symm.trans ht, h.framebuffer none⟩

theorem WindowInv.step (size : SoundRamSize n) {remap : UInt8} {e e' : Emulator n} {x : Slice}
    (inv : WindowInv e) (ok : UnblanksWithWrite e x) (h : iterate remap e x = some e') :
    WindowInv e' ∧ WindowFollows e' := by
  obtain ⟨s, hs, hfb, hdisp⟩ := iterate_display h
  have heffect : VideoEffect x.writeLanes e.machine s := VideoEffect.run size .xlib hs
  have hcases := foldl_blankStep x.writeLanes e.machine.vBlank
  unfold WindowFollows
  cases hdisp with
  | drawn shown touched vBlank picture =>
    rw [if_pos vBlank, hfb]
    exact ⟨⟨fun _ => .inr (hfb ▸ picture), fun hne => absurd vBlank hne⟩, picture⟩
  | kept shown untouched vBlank same =>
    obtain ⟨none, hvram, hsame⟩ := heffect.untouched untouched
    have hwindow : e'.window = bitmapFromData e'.machine.framebuffer := by
      rw [same, hfb, hsame]
      by_cases h0 : e.machine.vBlank = 0
      · exact (inv.showing h0).resolve_left fun hne => hne hvram
      · rw [(inv.blanked h0).2]
        rcases ok h0 (heffect.vBlank.symm.trans shown) with hne | hex | hblank
        · exact absurd hvram hne
        · exact absurd hex none
        · exact hblank.symm
    rw [if_pos vBlank]
    exact ⟨⟨fun _ => .inr hwindow, fun hne => absurd vBlank hne⟩, hwindow⟩
  | cleared blanked vBlank blank =>
    have hne : e'.machine.vBlank ≠ 0 := by
      rw [vBlank]
      decide
    rw [if_neg hne]
    exact ⟨⟨fun h0 => absurd h0 hne, fun _ => ⟨vBlank, blank⟩⟩, blank⟩
  | stayed later vBlank same =>
    have hsame : s.vBlank = e.machine.vBlank := by
      rw [heffect.vBlank]
      rcases hcases with hc | hc | hc
      · exact hc
      · exact absurd (heffect.vBlank.trans hc) later.1
      · exact absurd (heffect.vBlank.trans hc) later.2
    have hne : e'.machine.vBlank ≠ 0 := vBlank ▸ later.1
    obtain ⟨htwo, hblank⟩ := inv.blanked (hsame ▸ later.1)
    rw [if_neg hne, same]
    exact ⟨⟨fun h0 => absurd h0 hne, fun _ => ⟨vBlank.trans (hsame.trans htwo), same.trans hblank⟩⟩,
      hblank⟩

theorem WindowInv.strict (size : SoundRamSize n) {remap : UInt8} {e e' : Emulator n} {x : Slice}
    (inv : WindowInv e) (bad : ¬ UnblanksWithWrite e x) (h : iterate remap e x = some e') :
    ¬ WindowFollows e' := by
  simp only [UnblanksWithWrite, Classical.not_imp, not_or] at bad
  obtain ⟨hblanked, hunblanks, hvram, hnone, hpicture⟩ := bad
  obtain ⟨s, hs, hfb, hdisp⟩ := iterate_display h
  have heffect : VideoEffect x.writeLanes e.machine s := VideoEffect.run size .xlib hs
  have hs0 : s.vBlank = 0 := heffect.vBlank.trans hunblanks
  unfold WindowFollows
  cases hdisp with
  | drawn shown touched vBlank picture =>
    have hv := heffect.vramTouched
    rw [if_neg hnone] at hv
    exact absurd (hv ▸ touched) hvram
  | kept shown untouched vBlank same =>
    rw [if_pos vBlank, hfb, same, (inv.blanked hblanked).2, heffect.framebuffer hnone]
    exact Ne.symm hpicture
  | cleared blanked vBlank blank => rw [hs0] at blanked; cases blanked
  | stayed later vBlank same => exact absurd hs0 later.1

/-- The emulator when it enters the loop. -/
theorem enterLoop_eq (hn : videoBytes ≤ n) (l : Loaded n) :
    enterLoop l = some {
      machine := { l.machine with
        framebuffer := picture .xlib (fun _ => (0, 0)) l.mainRam (CArray.fill 0)
        vramTouched := 1 }
      window := blankWindow
      run := true } := by
  rw [enterLoop, startUp_eq .xlib hn]
  rfl

theorem windowInv_enterLoop {l : Loaded n} {e : Emulator n} (hn : videoBytes ≤ n)
    (h : enterLoop l = some e) : WindowInv e := by
  rw [enterLoop_eq hn] at h
  obtain rfl := Option.some.inj h
  exact ⟨fun _ => .inl (show (1 : UInt8) ≠ 0 by decide), fun hne => absurd rfl hne⟩

/-- From a state that satisfies the invariant, the window follows the register after every
iteration of exactly the runs that meet the condition. -/
theorem WindowInv.afterEach_iff (size : SoundRamSize n) {remap : UInt8} {e : Emulator n}
    (inv : WindowInv e) (xs : List Slice) :
    AfterEach (iterate remap) WindowFollows e xs
      ↔ Meets (iterate remap) UnblanksWithWrite e xs :=
  afterEach_iff_meets (fun _ _ _ inv ok h => inv.step size ok h)
    (fun _ _ _ inv bad h => inv.strict size bad h) inv

/-- **When the window follows the video control register.** In a run of the main loop it
does after every iteration exactly when no iteration unblanks the display without a video
write to draw, unless there is nothing to be seen. -/
theorem windowFollows_iff (remap : UInt8) (l : Loaded ramSize) (xs : List Slice) :
    ∃ e, enterLoop l = some e ∧
      (AfterEach (iterate remap) WindowFollows e xs
        ↔ Meets (iterate remap) UnblanksWithWrite e xs) := by
  have hn : videoBytes ≤ ramSize := by decide
  have he := enterLoop_eq hn l
  exact ⟨_, he, (windowInv_enterLoop hn he).afterEach_iff soundRamSize_ramSize xs⟩

/-- A machine whose RAM image lights every pixel. -/
def Loaded.lit (n : Nat) : Loaded n :=
  { Loaded.zero n with mainRam := CArray.fill 0xFF }

/-- An iteration in which the guest does nothing but write `value` to the video control. -/
def Slice.control (value : UInt32) : Slice :=
  ⟨[.write ⟨.byte, address68k 0x840001, value⟩], none, false⟩

theorem writeOpr_serialFr (s : Machine n) (value : UInt8) :
    (writeOpr s value).serialFr = s.serialFr := by
  unfold writeOpr
  dsimp only
  repeat' split
  all_goals rfl

/-- An iteration in which the guest writes the control register and does nothing else. -/
theorem iterate_control (size : SoundRamSize n) (remap : UInt8) {e : Emulator n}
    (hrun : e.run = true) (hserial : e.machine.serialFr = none) (value : UInt32) :
    iterate remap e (.control value) = some {
      machine := (displayStep (tick (writeOpr e.machine value.toUInt8))).2
      window := windowAfter e.window (displayStep (tick (writeOpr e.machine value.toUInt8))).1
      run := !watchdogTriggered (tick (writeOpr e.machine value.toUInt8)) } := by
  have hrun' : run (Access.step .xlib) e.machine (Slice.control value).accesses
      = some (writeOpr e.machine value.toUInt8) := by
    have h := BusWrite.step_eq size .xlib e.machine ⟨.byte, address68k 0x840001, value⟩
    have hlanes : BusWrite.lanes ⟨.byte, address68k 0x840001, value⟩
        = [(0x840001, value.toUInt8)] := by
      simp only [BusWrite.lanes, Width.lanes, laneByte, List.range_succ, List.range_zero,
        List.nil_append, List.map_cons, List.map_nil]
      exact congrArg (fun a => [(a, _)]) (by decide)
    rw [hlanes, writtenAll_cons, writtenAll_nil, written_opr size] at h
    simpa [Slice.control, Access.step] using h
  have hserial' : (displayStep (tick (writeOpr e.machine value.toUInt8))).2.serialFr = none := by
    obtain ⟨_, _, hdisp⟩ := displayStep_frame (tick (writeOpr e.machine value.toUInt8))
    rw [hdisp]
    exact (writeOpr_serialFr _ _).trans hserial
  rw [iterate, if_pos hrun, hrun']
  simp [xlibEvent, sliceEnd, EventEffect.apply, serialStep, hserial', Slice.control]

/-- A picture is shown, the guest blanks the display, and unblanks it: the window stays
blank. -/
theorem not_windowFollows_unblanked :
    ¬ ∀ (remap : UInt8) (l : Loaded ramSize) (e : Emulator ramSize) (xs : List Slice),
      enterLoop l = some e → AfterEach (iterate remap) WindowFollows e xs := by
  intro all
  have size := soundRamSize_ramSize
  have hn : videoBytes ≤ ramSize := by decide
  have he := enterLoop_eq hn (Loaded.lit ramSize)
  have meets := ((windowInv_enterLoop hn he).afterEach_iff size _).mp
    (all 1 _ _ [.control 0x04, .control 0x00, .control 0x04] he)
  have third := (((meets _ (iterate_control size 1 rfl rfl 0x04)).2 _
    (iterate_control size 1 rfl rfl 0x00)).2 _ (iterate_control size 1 rfl rfl 0x04)).1
  have hblank : bitmapFromData _ = blankWindow :=
    ((third (show (2 : UInt8) ≠ 0 by decide) rfl).resolve_left (by decide)).resolve_left (by decide)
  exact absurd (congrFun hblank 0) (by decide)

end Kyacopycat
