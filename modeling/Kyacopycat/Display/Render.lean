import Kyacopycat.Bus.ByteStore
import Kyacopycat.Lib.History
import Mathlib.Tactic.IntervalCases

/-!
Incremental rendering against rendering from scratch, and one front end against the other.

Both renderers fill each framebuffer entry from one byte of video RAM and the polarity
`(v_zero, v_one)` of the moment, so a framebuffer is a `picture`: a function of the RAM and
of the polarity each byte was last rendered with.

* `updateFramebuffer_eq`: rendering from scratch makes the picture with one polarity.
* `framebuffer_writtenAll`: byte writes keep the framebuffer a picture, with the polarity
  history of the run.
* `incremental_rendering`: what a run leaves in the framebuffer, pixel by pixel.
* `samePicture_iff`: when the two front ends show the same picture after a run.
-/

namespace Kyacopycat

open Run LastWrite

variable {n : Nat}

/-! ### Pixels of one byte -/

theorem sdlPixel_eq (vZero vOne value : UInt8) {i : Nat} (hi : i < 8) :
    sdlPixel vZero vOne value i = if value.toNat.testBit (7 - i) then vZero else vOne := by
  have hmask : (0x80 >>> UInt8.ofNat i : UInt8).toNat = 2 ^ (7 - i) := by
    interval_cases i <;> rfl
  have hbit : value &&& (0x80 >>> UInt8.ofNat i) ≠ 0 ↔ value.toNat.testBit (7 - i) = true := by
    rw [Ne, ← UInt8.toNat_inj, UInt8.toNat_and, hmask, Nat.and_two_pow]
    cases value.toNat.testBit (7 - i) <;> simp
  rw [sdlPixel]
  exact ite_congr (propext hbit) (fun _ => rfl) fun _ => rfl

/-- The Xlib byte reverses the bits, and complements them under `v_zero`. -/
theorem testBit_xlibByte (vZero value : UInt8) {i : Nat} (hi : i < 8) :
    (xlibByte vZero value).toNat.testBit i
      = (value.toNat.testBit (7 - i) ^^ decide (vZero ≠ 0)) := by
  have hplain : (xlibByte 0 value).toNat.testBit i = value.toNat.testBit (7 - i) := by
    have h80 : (0x80 : UInt8).toNat = 2 ^ 7 := rfl
    have h40 : (0x40 : UInt8).toNat = 2 ^ 6 := rfl
    have h20 : (0x20 : UInt8).toNat = 2 ^ 5 := rfl
    have h10 : (0x10 : UInt8).toNat = 2 ^ 4 := rfl
    have h08 : (0x08 : UInt8).toNat = 2 ^ 3 := rfl
    have h04 : (0x04 : UInt8).toNat = 2 ^ 2 := rfl
    have h02 : (0x02 : UInt8).toNat = 2 ^ 1 := rfl
    have h01 : (0x01 : UInt8).toNat = 2 ^ 0 := rfl
    unfold xlibByte
    simp only [h80, h40, h20, h10, h08, h04, h02, h01, Nat.testBit_two_pow, ne_eq, not_true,
      if_false, UInt8.toNat_or, UInt8.toNat_and, UInt8.toNat_shiftRight, UInt8.toNat_shiftLeft,
      Nat.testBit_or, Nat.testBit_and, Nat.testBit_shiftRight, Nat.testBit_mod_two_pow,
      Nat.testBit_shiftLeft]
    interval_cases i <;> simp
  have hxor : xlibByte vZero value
      = if vZero ≠ 0 then ~~~xlibByte 0 value else xlibByte 0 value := by
    by_cases hz : vZero = 0 <;> simp [xlibByte, hz]
  rw [hxor]
  by_cases hz : vZero = 0
  · simp [hz, hplain]
  · rw [if_pos hz, BitField.testBit_not _ hi, hplain]
    simp [hz]

/-- A byte with every bit set. -/
theorem forall_testBit_iff (b : UInt8) : (∀ i < 8, b.toNat.testBit (7 - i) = true) ↔ b = 0xFF := by
  constructor
  · intro all
    have hb : b.toNat = 2 ^ 8 - 1 := by
      apply Nat.eq_of_testBit_eq
      intro j
      rw [Nat.testBit_two_pow_sub_one]
      by_cases hj : j < 8
      · have h := all (7 - j) (by omega)
        rw [show 7 - (7 - j) = j by omega] at h
        simp [hj, h]
      · have hlt : b.toNat < 2 ^ j :=
          Nat.lt_of_lt_of_le (UInt8.toNat_lt b) (Nat.pow_le_pow_right (by decide) (by omega))
        simp [hj, Nat.testBit_lt_two_pow hlt]
    exact UInt8.toNat_inj.mp hb
  · rintro rfl i hi
    interval_cases i <;> rfl

/-! ### Pictures -/

/-- The byte of video RAM that framebuffer entry `j` shows. -/
def fbSource (ui : Ui) (j : Nat) : Nat :=
  match ui with
  | .sdl => j / 8
  | .xlib => j

/-- What entry `j` shows of the byte `value`. -/
def fbValue (ui : Ui) (vZero vOne value : UInt8) (j : Nat) : UInt8 :=
  match ui with
  | .sdl => sdlPixel vZero vOne value (j % 8)
  | .xlib => xlibByte vZero value

/-- A displayed byte of the RAM. -/
def videoByte (ram : CArray UInt8 n) (p : Nat) : UInt8 := (ram.load p).getD 0

/-- The framebuffer that shows the RAM `ram`, byte `p` with the polarity `pol p`; entries
that show nothing are those of `fb`. -/
def picture (ui : Ui) (pol : Nat → UInt8 × UInt8) (ram : CArray UInt8 n)
    (fb : CArray UInt8 (dispW * dispH)) : CArray UInt8 (dispW * dispH) := fun j =>
  let p := fbSource ui j
  if p < videoBytes then fbValue ui (pol p).1 (pol p).2 (videoByte ram p) j else fb j

theorem rendered_apply (ui : Ui) (vZero vOne value : UInt8) (fb : CArray UInt8 (dispW * dispH))
    (p : Nat) (j : Fin (dispW * dispH)) :
    rendered ui vZero vOne fb p value j
      = if fbSource ui j = p then fbValue ui vZero vOne value j else fb j := by
  cases ui <;> rfl

theorem videoByte_of_lt (ram : CArray UInt8 n) {p : Nat} (h : p < n) :
    videoByte ram p = ram ⟨p, h⟩ := by
  rw [videoByte, CArray.load_of_lt _ h]
  rfl

theorem videoByte_set (ram : CArray UInt8 n) {p : Nat} (h : p < n) (value : UInt8) (q : Nat) :
    videoByte (ram.set p value) q = if q = p then value else videoByte ram q := by
  rw [videoByte, CArray.load_set]
  by_cases hq : q = p
  · rw [if_pos ⟨hq, hq ▸ h⟩, if_pos hq]
    rfl
  · rw [if_neg fun h => hq h.1, if_neg hq]
    rfl

/-- Rendering a byte of a picture makes the picture with that byte and its polarity. -/
theorem rendered_picture (ui : Ui) (pol : Nat → UInt8 × UInt8) (ram : CArray UInt8 n)
    (fb : CArray UInt8 (dispW * dispH)) {p : Nat} (hp : p < videoBytes) (hn : p < n)
    (vZero vOne value : UInt8) :
    rendered ui vZero vOne (picture ui pol ram fb) p value
      = picture ui (Function.update pol p (vZero, vOne)) (ram.set p value) fb := by
  funext j
  simp only [rendered_apply, picture, videoByte_set ram hn, Function.update_apply]
  by_cases hj : fbSource ui j = p
  · simp [hj, hp]
  · simp [hj]

/-- The byte loop of `update_framebuffer`, after its first `m` bytes. -/
theorem updateLoop_eq (ui : Ui) (s : Machine n) (hn : videoBytes ≤ n) {m : Nat}
    (hm : m ≤ videoBytes) :
    (List.range m).foldlM (fun (s : Machine n) p => do
        let value ← s.mainRam.load p
        updatePixel ui s p value) s
      = some { s with
          framebuffer := fun j =>
            if fbSource ui j < m then
              fbValue ui s.vZero s.vOne (videoByte s.mainRam (fbSource ui j)) j
            else s.framebuffer j } := by
  induction m with
  | zero => simp
  | succ m ih =>
    have hlt : m < n := by omega
    rw [List.range_succ, List.foldlM_append, ih (by omega)]
    simp only [List.foldlM_cons, List.foldlM_nil, Option.bind_eq_bind, Option.bind_some,
      CArray.load_of_lt _ hlt, updatePixel, renderByte_eq _ _ _ _ _ hm, Option.map_some,
      Option.pure_def]
    congr 2
    funext j
    rw [rendered_apply]
    by_cases hj : fbSource ui j = m
    · simp [hj, videoByte_of_lt _ hlt]
    · have hiff : fbSource ui j < m + 1 ↔ fbSource ui j < m := by omega
      simp [hj, hiff]

/-- `update_framebuffer` makes the picture of the RAM with the current polarity. -/
theorem updateFramebuffer_eq (ui : Ui) (s : Machine n) (hn : videoBytes ≤ n) :
    updateFramebuffer ui s = some { s with
      framebuffer := picture ui (fun _ => (s.vZero, s.vOne)) s.mainRam s.framebuffer } :=
  updateLoop_eq ui s hn (Nat.le_refl _)

/-- The machine when `main` enters the loop. -/
theorem startUp_eq (ui : Ui) (hn : videoBytes ≤ n) (l : Loaded n) :
    startUp ui l = some { l.machine with
      framebuffer := picture ui (fun _ => (0, 0)) l.mainRam (CArray.fill 0)
      vramTouched := 1 } := by
  rw [startUp, updateFramebuffer_eq ui _ hn]
  rfl

/-- A picture depends on the displayed polarities only. -/
theorem picture_congr (ui : Ui) {pol pol' : Nat → UInt8 × UInt8} (ram : CArray UInt8 n)
    (fb : CArray UInt8 (dispW * dispH)) (h : ∀ p < videoBytes, pol p = pol' p) :
    picture ui pol ram fb = picture ui pol' ram fb := by
  funext j
  simp only [picture]
  split
  next hp => rw [h _ hp]
  next => rfl

/-- A picture over a picture hides it. -/
theorem picture_picture (ui : Ui) (pol pol' : Nat → UInt8 × UInt8) (ram : CArray UInt8 n)
    (fb : CArray UInt8 (dispW * dispH)) :
    picture ui pol ram (picture ui pol' ram fb) = picture ui pol ram fb := by
  funext j
  simp only [picture]
  split <;> rfl

/-! ### The polarity history of a run -/

/-- The displayed bytes that byte writes render, each with the polarity of the moment. -/
def polarityWrites (ui : Ui) : Machine n → List (UInt32 × UInt8) → List (Nat × UInt8 × UInt8)
  | _, [] => []
  | s, l :: ls =>
    (if InVideo l.1 then [(l.1.toNat - 0x400000, s.vZero, s.vOne)] else [])
      ++ polarityWrites ui (written ui s l.1 l.2) ls

/-- The values `(v_zero, v_one)` had when displayed byte `p` was last written, or in `s`
if none of the writes is to it. -/
def polarityAt (ui : Ui) (s : Machine n) (ls : List (UInt32 × UInt8)) : Nat → UInt8 × UInt8 :=
  valueAt (fun _ => (s.vZero, s.vOne)) (polarityWrites ui s ls)

/-- Byte writes keep the framebuffer a picture of the RAM. -/
theorem framebuffer_writtenAll (size : SoundRamSize n) (ui : Ui) {s : Machine n}
    {pol : Nat → UInt8 × UInt8} {fb : CArray UInt8 (dispW * dispH)}
    (h : s.framebuffer = picture ui pol s.mainRam fb) (ls : List (UInt32 × UInt8)) :
    (writtenAll ui s ls).framebuffer
      = picture ui (valueAt pol (polarityWrites ui s ls)) (writtenAll ui s ls).mainRam fb := by
  induction ls generalizing s pol with
  | nil => simpa [polarityWrites] using h
  | cons l ls ih =>
    rw [writtenAll_cons, polarityWrites]
    by_cases hv : InVideo l.1
    · have hram : InRam n l.1 := hv.inRam size
      have hp : l.1.toNat - 0x400000 < videoBytes := by
        simp only [InVideo, videoBytes] at hv ⊢
        omega
      have hn : l.1.toNat - 0x400000 < n := by
        simp only [InRam] at hram
        omega
      rw [if_pos hv, List.singleton_append, valueAt_cons]
      apply ih
      rw [written_framebuffer size, if_pos hv, written_mainRam, if_pos hram, h,
        rendered_picture ui pol _ fb hp hn]
    · rw [if_neg hv, List.nil_append]
      apply ih
      rw [written_framebuffer size, if_neg hv, h]
      funext j
      simp only [picture]
      split
      next hp =>
        -- A RAM byte past the displayed ones is not in the picture.
        have hbyte : videoByte (written ui s l.1 l.2).mainRam (fbSource ui j)
            = videoByte s.mainRam (fbSource ui j) := by
          rw [written_mainRam]
          split
          next hram =>
            have hne : fbSource ui j ≠ l.1.toNat - 0x400000 := by
              simp only [InVideo, InRam, videoBytes] at *
              omega
            rw [videoByte_set _ (by simp only [InRam] at hram; omega), if_neg hne]
          next => rfl
        rw [hbyte]
      next => rfl

/-! ### Incremental rendering -/

/-- What pixel `i` of displayed byte `p` shows, given the polarity of the byte. -/
def PixelShows (ui : Ui) (s : Machine n) (vZero vOne : UInt8) (p i : Nat) : Prop :=
  ∃ b, s.mainRam.load p = some b ∧
    match ui with
    | .sdl => s.framebuffer.load (8 * p + i)
        = some (if b.toNat.testBit (7 - i) then vZero else vOne)
    | .xlib => ∃ f, s.framebuffer.load p = some f ∧
        f.toNat.testBit i = (b.toNat.testBit (7 - i) ^^ decide (vZero ≠ 0))

/-- The pixels of a picture. -/
theorem pixelShows_of_picture (ui : Ui) {s : Machine n} {pol : Nat → UInt8 × UInt8}
    {fb : CArray UInt8 (dispW * dispH)} (hn : videoBytes ≤ n)
    (h : s.framebuffer = picture ui pol s.mainRam fb) {p i : Nat} (hp : p < videoBytes)
    (hi : i < 8) : PixelShows ui s (pol p).1 (pol p).2 p i := by
  have hpn : p < n := Nat.lt_of_lt_of_le hp hn
  refine ⟨_, CArray.load_of_lt _ hpn, ?_⟩
  cases ui with
  | sdl =>
    have hj : 8 * p + i < dispW * dispH := by
      simp only [videoBytes, dispW, dispH] at *
      omega
    have hsource : fbSource .sdl (8 * p + i) = p := by
      simp only [fbSource]
      omega
    have hmod : (8 * p + i) % 8 = i := by omega
    rw [h, CArray.load_of_lt _ hj]
    simp only [picture, hsource, hp, if_true, fbValue, hmod, sdlPixel_eq _ _ _ hi,
      videoByte_of_lt _ hpn]
  | xlib =>
    have hj : p < dispW * dispH := Nat.lt_of_lt_of_le hp (by decide)
    refine ⟨_, by rw [h]; exact CArray.load_of_lt _ hj, ?_⟩
    simp only [picture, fbSource, hp, if_true, fbValue, testBit_xlibByte _ _ hi,
      videoByte_of_lt _ hpn]

/-- **Incremental rendering is exact up to polarity history.** After the start-up rendering
and any run of bus writes, every pixel shows the current bit of the RAM in the polarity its
byte was last written with; and when all these polarities are the current one, rendering
from scratch would change nothing. -/
theorem incremental_rendering (ui : Ui) (s₀ : Machine ramSize) (ws : List BusWrite) :
    ∃ s₁ s, updateFramebuffer ui s₀ = some s₁ ∧ run (BusWrite.step ui) s₁ ws = some s ∧
      (∀ p < videoBytes, ∀ i < 8,
        PixelShows ui s (polarityAt ui s₁ (ws.flatMap BusWrite.lanes) p).1
          (polarityAt ui s₁ (ws.flatMap BusWrite.lanes) p).2 p i) ∧
      ((∀ p < videoBytes, polarityAt ui s₁ (ws.flatMap BusWrite.lanes) p = (s.vZero, s.vOne)) →
        updateFramebuffer ui s = some s) := by
  have hn : videoBytes ≤ ramSize := by decide
  refine ⟨_, _, updateFramebuffer_eq ui s₀ hn, run_busWrite soundRamSize_ramSize ui _ ws, ?_, ?_⟩
  all_goals
    generalize hs₁ : ({ s₀ with framebuffer := _ } : Machine ramSize) = s₁
    have hstart : s₁.framebuffer
        = picture ui (fun _ => (s₁.vZero, s₁.vOne)) s₁.mainRam s₀.framebuffer := by
      rw [← hs₁]
    have hpic := framebuffer_writtenAll soundRamSize_ramSize ui hstart (ws.flatMap BusWrite.lanes)
  · intro p hp i hi
    exact pixelShows_of_picture ui hn hpic hp hi
  · intro same
    generalize writtenAll ui s₁ (ws.flatMap BusWrite.lanes) = s at *
    rw [updateFramebuffer_eq ui s hn, hpic, picture_picture,
      ← picture_congr ui s.mainRam s₀.framebuffer same, polarityAt, ← hpic]

/-! ### The two front ends -/

/-- The machine after the start-up rendering and bus writes. -/
def afterWrites (ui : Ui) (l : Loaded n) (ws : List BusWrite) : Option (Machine n) :=
  (startUp ui l).bind fun s => run (BusWrite.step ui) s ws

/-- The SDL build shows a pixel black exactly where the Xlib build has a set bit, which
`XCopyPlane` draws in the black foreground. -/
def SamePicture (sdl xlib : Machine n) : Prop :=
  ∀ p < videoBytes, ∀ i < 8,
    sdl.framebuffer.load (8 * p + i) = some 0 ↔
      ∃ f, xlib.framebuffer.load p = some f ∧ f.toNat.testBit i

/-- The byte write sets a polarity. -/
def SetsPolarity (l : UInt32 × UInt8) : Prop :=
  l.1 = 0x840001 ∧ l.2 &&& 0x04 ≠ 0

/-- Displayed byte `p` was written after a write that set a polarity. -/
def PaintedPolarized (ls : List (UInt32 × UInt8)) (p : Nat) : Prop :=
  ∃ before l later, ls = before ++ l :: later ∧ l.1.toNat = 0x400000 + p ∧
    ∃ x ∈ before, SetsPolarity x

/-- The polarity is one the guest can set. -/
def Polarized (zo : UInt8 × UInt8) : Prop :=
  zo = (0xFF, 0) ∨ zo = (0, 0xFF)

theorem polarityStep_of_sets {l : UInt32 × UInt8} (h : SetsPolarity l) (zo : UInt8 × UInt8) :
    Polarized (polarityStep zo l) := by
  unfold SetsPolarity at h
  rw [polarityStep, if_pos h]
  split
  · exact .inl rfl
  · exact .inr rfl

theorem polarityStep_of_not_sets {l : UInt32 × UInt8} (h : ¬ SetsPolarity l)
    (zo : UInt8 × UInt8) : polarityStep zo l = zo := by
  unfold SetsPolarity at h
  rw [polarityStep, if_neg h]

/-- The displayed bytes that byte writes render, from the control writes alone. -/
def polarityHistory : UInt8 × UInt8 → List (UInt32 × UInt8) → List (Nat × UInt8 × UInt8)
  | _, [] => []
  | zo, l :: ls =>
    (if InVideo l.1 then [(l.1.toNat - 0x400000, zo)] else [])
      ++ polarityHistory (polarityStep zo l) ls

theorem polarityWrites_eq (size : SoundRamSize n) (ui : Ui) (s : Machine n)
    (ls : List (UInt32 × UInt8)) :
    polarityWrites ui s ls = polarityHistory (s.vZero, s.vOne) ls := by
  induction ls generalizing s with
  | nil => rfl
  | cons l ls ih =>
    rw [polarityWrites, polarityHistory, ih, written_polarity size]

theorem polarityHistory_concat (zo : UInt8 × UInt8) (ls : List (UInt32 × UInt8))
    (l : UInt32 × UInt8) :
    polarityHistory zo (ls ++ [l]) = polarityHistory zo ls
      ++ if InVideo l.1 then [(l.1.toNat - 0x400000, ls.foldl polarityStep zo)] else [] := by
  induction ls generalizing zo with
  | nil => simp [polarityHistory]
  | cons m ls ih => simp only [List.cons_append, polarityHistory, ih, List.append_assoc,
      List.foldl_cons]

/-- Before the guest sets a polarity, `v_zero` and `v_one` are both zero. -/
theorem foldl_polarityStep (ls : List (UInt32 × UInt8)) :
    ((∃ x ∈ ls, SetsPolarity x) → Polarized (ls.foldl polarityStep (0, 0))) ∧
      ((¬ ∃ x ∈ ls, SetsPolarity x) → ls.foldl polarityStep (0, 0) = (0, 0)) := by
  induction ls using List.reverseRecOn with
  | nil => simp
  | append_singleton ls l ih =>
    rw [List.foldl_concat]
    by_cases hl : SetsPolarity l
    · exact ⟨fun _ => polarityStep_of_sets hl _, fun none => absurd ⟨l, by simp, hl⟩ none⟩
    · rw [polarityStep_of_not_sets hl]
      have hiff : (∃ x ∈ ls ++ [l], SetsPolarity x) ↔ ∃ x ∈ ls, SetsPolarity x := by
        simp [or_and_right, exists_or, hl]
      rw [hiff]
      exact ih

theorem paintedPolarized_concat (ls : List (UInt32 × UInt8)) (l : UInt32 × UInt8) (p : Nat) :
    PaintedPolarized (ls ++ [l]) p ↔ PaintedPolarized ls p ∨
      (l.1.toNat = 0x400000 + p ∧ ∃ x ∈ ls, SetsPolarity x) := by
  constructor
  · rintro ⟨before, m, later, heq, hm, hset⟩
    rcases History.concat_eq_append_cons.mp heq with ⟨-, rfl, rfl⟩ | ⟨later, rfl, hls⟩
    · exact .inr ⟨hm, hset⟩
    · exact .inl ⟨before, m, later, hls, hm, hset⟩
  · rintro (⟨before, m, later, rfl, hm, hset⟩ | ⟨hl, hset⟩)
    · exact ⟨before, m, later ++ [l], by simp, hm, hset⟩
    · exact ⟨ls, l, [], rfl, hl, hset⟩

/-- The polarity of a displayed byte: one the guest can set once the byte is painted in
such a polarity, and the initial zeros before that. -/
theorem polarity_of_byte (ls : List (UInt32 × UInt8)) {p : Nat} (hp : p < videoBytes) :
    let zo := valueAt (fun _ => ((0, 0) : UInt8 × UInt8)) (polarityHistory (0, 0) ls) p
    (PaintedPolarized ls p → Polarized zo) ∧ (¬ PaintedPolarized ls p → zo = (0, 0)) := by
  induction ls using List.reverseRecOn with
  | nil => simp [PaintedPolarized, polarityHistory]
  | append_singleton ls l ih =>
    simp only [polarityHistory_concat, paintedPolarized_concat]
    by_cases hl : l.1.toNat = 0x400000 + p
    · have hv : InVideo l.1 := by
        simp only [InVideo, videoBytes] at hp ⊢
        omega
      rw [if_pos hv, valueAt_concat, show l.1.toNat - 0x400000 = p by omega,
        Function.update_self]
      obtain ⟨hset, hnone⟩ := foldl_polarityStep ls
      refine ⟨?_, fun h => hnone fun hx => h (.inr ⟨hl, hx⟩)⟩
      rintro (⟨before, m, later, rfl, -, x, hx, hxs⟩ | ⟨-, hx⟩)
      · exact hset ⟨x, List.mem_append_left _ hx, hxs⟩
      · exact hset hx
    · have hsame : valueAt (fun _ => ((0, 0) : UInt8 × UInt8)) (polarityHistory (0, 0) ls
          ++ if InVideo l.1 then [(l.1.toNat - 0x400000, ls.foldl polarityStep (0, 0))] else []) p
          = valueAt (fun _ => (0, 0)) (polarityHistory (0, 0) ls) p := by
        split
        next hv =>
          rw [valueAt_concat, Function.update_of_ne]
          have := hv.1
          omega
        next => rw [List.append_nil]
      simp only [hsame, hl, false_and, or_false]
      exact ih

/-- One displayed byte, with the same RAM and polarity in both builds: the pixels agree
under a polarity the guest can set, and with the initial zeros only if all are set. -/
theorem pixels_agree_iff {sdl xlib : Machine n} {zo : UInt8 × UInt8} {b : UInt8} {p : Nat}
    (hram : sdl.mainRam.load p = some b) (hram' : xlib.mainRam.load p = some b)
    (hsdl : ∀ i < 8, PixelShows .sdl sdl zo.1 zo.2 p i)
    (hxlib : ∀ i < 8, PixelShows .xlib xlib zo.1 zo.2 p i) (hzo : Polarized zo ∨ zo = (0, 0)) :
    (∀ i < 8, sdl.framebuffer.load (8 * p + i) = some 0 ↔
      ∃ f, xlib.framebuffer.load p = some f ∧ f.toNat.testBit i) ↔ Polarized zo ∨ b = 0xFF := by
  have hpixel : ∀ i < 8, (sdl.framebuffer.load (8 * p + i) = some 0 ↔
      ∃ f, xlib.framebuffer.load p = some f ∧ f.toNat.testBit i) ↔
        (Polarized zo ∨ b.toNat.testBit (7 - i) = true) := by
    intro i hi
    obtain ⟨b', hb', hs⟩ := hsdl i hi
    obtain ⟨b'', hb'', f, hf, hx⟩ := hxlib i hi
    obtain rfl : b' = b := Option.some.inj (hb'.symm.trans hram)
    obtain rfl : b'' = b' := Option.some.inj (hb''.symm.trans hram')
    simp only at hs
    simp only [hs, hf, Option.some.injEq, exists_eq_left', hx]
    rcases hzo with (rfl | rfl) | rfl
    · cases b''.toNat.testBit (7 - i) <;> simp [Polarized]
    · cases b''.toNat.testBit (7 - i) <;> simp [Polarized]
    · cases b''.toNat.testBit (7 - i) <;> simp [Polarized]
  rw [← forall_testBit_iff]
  constructor
  · intro all
    by_cases hpol : Polarized zo
    · exact .inl hpol
    · exact .inr fun i hi => ((hpixel i hi).mp (all i hi)).resolve_left hpol
  · rintro (hpol | hb) i hi
    · exact (hpixel i hi).mpr (.inl hpol)
    · exact (hpixel i hi).mpr (.inr (hb i hi))

/-- The start-up rendering and bus writes, in one front end: every pixel, and the RAM. -/
theorem afterWrites_pixels (ui : Ui) (l : Loaded ramSize) (ws : List BusWrite) :
    ∃ s, afterWrites ui l ws = some s ∧
      contents s = valueAt (contents l.machine) (cellHistory ramSize (ws.flatMap BusWrite.lanes)) ∧
      ∀ p < videoBytes, ∀ i < 8,
        let zo := valueAt (fun _ => ((0, 0) : UInt8 × UInt8))
          (polarityHistory (0, 0) (ws.flatMap BusWrite.lanes)) p
        PixelShows ui s zo.1 zo.2 p i := by
  have hn : videoBytes ≤ ramSize := by decide
  have hstart := startUp_eq ui hn l
  generalize hs₁ : ({ l.machine with framebuffer := _, vramTouched := _ } : Machine ramSize) = s₁
    at hstart
  have hblack : s₁.framebuffer
      = picture ui (fun _ => (0, 0)) s₁.mainRam l.machine.framebuffer := by
    rw [← hs₁]; rfl
  have hpic := framebuffer_writtenAll soundRamSize_ramSize ui hblack (ws.flatMap BusWrite.lanes)
  have hpol : (s₁.vZero, s₁.vOne) = (0, 0) := by rw [← hs₁]; rfl
  have hcontents : contents s₁ = contents l.machine := by
    rw [← hs₁]
    funext c
    cases c <;> rfl
  rw [polarityWrites_eq soundRamSize_ramSize, hpol] at hpic
  refine ⟨_, ?_, ?_, fun p hp i hi => pixelShows_of_picture ui hn hpic hp hi⟩
  · rw [afterWrites, hstart]
    exact run_busWrite soundRamSize_ramSize ui s₁ ws
  · rw [contents_writtenAll, hcontents]

/-- When the two front ends show the same picture: exactly when every displayed byte was
painted after the guest set a polarity, or has all its bits set. -/
theorem samePicture_iff (l : Loaded ramSize) (ws : List BusWrite) :
    ∃ sdl xlib, afterWrites .sdl l ws = some sdl ∧ afterWrites .xlib l ws = some xlib ∧
      (SamePicture sdl xlib ↔ ∀ i : Fin ramSize, i.val < videoBytes →
        PaintedPolarized (ws.flatMap BusWrite.lanes) i ∨
          valueAt (contents l.machine) (cellHistory ramSize (ws.flatMap BusWrite.lanes)) (.ram i)
            = 0xFF) := by
  obtain ⟨sdl, hsdl, hcontents, hpixels⟩ := afterWrites_pixels .sdl l ws
  obtain ⟨xlib, hxlib, hcontents', hpixels'⟩ := afterWrites_pixels .xlib l ws
  refine ⟨sdl, xlib, hsdl, hxlib, ?_⟩
  have hbyte : ∀ p (hp : p < videoBytes) (hr : p < ramSize),
      (∀ i < 8, sdl.framebuffer.load (8 * p + i) = some 0 ↔
        ∃ f, xlib.framebuffer.load p = some f ∧ f.toNat.testBit i) ↔
      PaintedPolarized (ws.flatMap BusWrite.lanes) p ∨
        valueAt (contents l.machine) (cellHistory ramSize (ws.flatMap BusWrite.lanes))
          (.ram ⟨p, hr⟩) = 0xFF := by
    intro p hp hr
    have hram := congrFun hcontents (.ram ⟨p, hr⟩)
    have hram' := congrFun hcontents' (.ram ⟨p, hr⟩)
    obtain ⟨hpainted, hzero⟩ := polarity_of_byte (ws.flatMap BusWrite.lanes) hp
    rw [pixels_agree_iff ((CArray.load_of_lt _ hr).trans (congrArg some hram))
      ((CArray.load_of_lt _ hr).trans (congrArg some hram')) (hpixels p hp) (hpixels' p hp)
      ((em _).imp hpainted hzero)]
    refine or_congr_left ⟨fun hpol => ?_, hpainted⟩
    by_contra hnot
    rw [hzero hnot] at hpol
    rcases hpol with h | h <;> cases h
  constructor
  · intro same i hi
    exact (hbyte i hi i.isLt).mp (same i hi)
  · intro all p hp
    have hr : p < ramSize := Nat.lt_of_lt_of_le hp (by decide)
    exact (hbyte p hp hr).mpr (all ⟨p, hr⟩ hp)

/-- The images of a machine without any, whose RAM is all zeros. -/
def Loaded.zero (n : Nat) : Loaded n where
  mainRom := CArray.fill 0
  mainRam := CArray.fill 0
  svram := CArray.fill 0
  svrom := CArray.fill 0
  dip := 0xFF
  printerF := none
  serialFr := none
  serialFw := none
  translate := 0

/-- At start-up, before the guest has set a polarity, a clear pixel is black in the SDL
build and white in the Xlib build. -/
theorem not_samePicture_start :
    ¬ ∀ (l : Loaded ramSize) (ws : List BusWrite) (sdl xlib : Machine ramSize),
      afterWrites .sdl l ws = some sdl → afterWrites .xlib l ws = some xlib →
      SamePicture sdl xlib := by
  intro all
  have hn : videoBytes ≤ ramSize := by decide
  have same := all (Loaded.zero ramSize) [] _ _
    (by rw [afterWrites, startUp_eq _ hn]; rfl)
    (by rw [afterWrites, startUp_eq _ hn]; rfl) 0 (by decide) 0 (by decide)
  obtain ⟨f, hf, hbit⟩ := same.mp (by rw [CArray.load_of_lt _ (by decide)]; rfl)
  have hzero : f = 0 := by
    rw [CArray.load_of_lt _ (by decide)] at hf
    exact (Option.some.inj hf).symm
  rw [hzero] at hbit
  exact absurd hbit (by decide)

end Kyacopycat
