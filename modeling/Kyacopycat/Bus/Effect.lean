import Kyacopycat.Bus.Decode
import Kyacopycat.Lib.Run

/-!
What a bus write does to the machine, as a total function.

For a RAM whose size is a power of two between 128 KiB and 4 MiB (`SoundRamSize`; the
size `config.h` ships with is one) no write leaves the bounds of an array, and
`m68k_write_memory_8` is the function `written`. A wide write is `written` at each of its
lanes in turn (`m68kWriteMemory_eq`), so a run of bus writes is the fold of `written` over
the lanes of all of them (`run_busWrite`).
-/

namespace Kyacopycat

variable {n : Nat}

/-! ### RAM sizes -/

/-- A RAM size the decoder handles: a power of two, at least one 128 KiB bank, inside the
area whose two top address bits are 01. -/
structure SoundRamSize (n : Nat) : Prop where
  pow : ∃ k, n = 2 ^ k
  lower : 131072 ≤ n
  upper : n ≤ 0x400000

theorem soundRamSize_ramSize : SoundRamSize ramSize :=
  ⟨⟨18, rfl⟩, by decide, by decide⟩

/-- The address lies in the RAM. -/
def InRam (n : Nat) (a : UInt32) : Prop :=
  0x400000 ≤ a.toNat ∧ a.toNat < 0x400000 + n

instance (a : UInt32) : Decidable (InRam n a) := by
  unfold InRam; infer_instance

/-- The index mask of a sound size maps the RAM onto itself in order. -/
theorem ramIndex_eq (size : SoundRamSize n) {a : UInt32} (h : InRam n a) :
    a.toNat &&& (n - 1) = a.toNat - 0x400000 := by
  obtain ⟨k, rfl⟩ := size.pow
  have hk : k ≤ 22 := (Nat.pow_le_pow_iff_right (by decide)).mp size.upper
  have hbase : 0x400000 = 2 ^ k * 2 ^ (22 - k) := by
    rw [← Nat.pow_add, Nat.add_sub_cancel' hk]
  obtain ⟨lo, hi⟩ := h
  obtain ⟨x, hx⟩ := Nat.exists_eq_add_of_le lo
  rw [BitField.and_ones, hx, Nat.add_sub_cancel_left, hbase, Nat.mul_add_mod]
  exact Nat.mod_eq_of_lt (by omega)

/-! ### Rendering one byte -/

/-- The framebuffer after byte `p` of video RAM has been rendered. -/
def rendered (ui : Ui) (vZero vOne : UInt8) (fb : CArray UInt8 (dispW * dispH)) (p : Nat)
    (value : UInt8) : CArray UInt8 (dispW * dispH) :=
  match ui with
  | .sdl => fun j => if j.val / 8 = p then sdlPixel vZero vOne value (j.val % 8) else fb j
  | .xlib => fb.set p (xlibByte vZero value)

/-- The pixel loop of the SDL renderer, after its first `m` pixels. -/
theorem sdlLoop_eq (vZero vOne value : UInt8) (fb : CArray UInt8 (dispW * dispH)) {p : Nat}
    (hp : p < videoBytes) {m : Nat} (hm : m ≤ 8) :
    (List.range m).foldlM (fun fb i => CArray.store fb (p * 8 + i) (sdlPixel vZero vOne value i)) fb
      = some fun j => if p * 8 ≤ j.val ∧ j.val < p * 8 + m
          then sdlPixel vZero vOne value (j.val - p * 8) else fb j := by
  induction m with
  | zero =>
    simp only [List.range_zero, List.foldlM_nil]
    congr 1
    funext j
    rw [if_neg (by omega)]
  | succ m ih =>
    have hin : p * 8 + m < dispW * dispH := by
      simp only [videoBytes, dispW, dispH] at *
      omega
    rw [List.range_succ, List.foldlM_append, ih (by omega)]
    simp only [List.foldlM_cons, List.foldlM_nil, Option.bind_eq_bind, Option.bind_some,
      CArray.store_of_lt _ hin, Option.pure_def]
    congr 1
    funext j
    rw [CArray.set_apply]
    by_cases hj : j.val = p * 8 + m
    · rw [if_pos hj, if_pos (by omega), hj, Nat.add_sub_cancel_left]
    · rw [if_neg hj]
      congr 1
      exact propext (by omega)

/-- Rendering a displayed byte stays inside the framebuffer. -/
theorem renderByte_eq (ui : Ui) (vZero vOne value : UInt8) (fb : CArray UInt8 (dispW * dispH))
    {p : Nat} (hp : p < videoBytes) :
    renderByte ui vZero vOne fb p value = some (rendered ui vZero vOne fb p value) := by
  cases ui with
  | sdl =>
    rw [renderByte, sdlLoop_eq _ _ _ _ hp (Nat.le_refl 8), rendered]
    congr 1
    funext j
    have hiff : (p * 8 ≤ j.val ∧ j.val < p * 8 + 8) ↔ j.val / 8 = p := by omega
    simp only [hiff]
    split
    next h => rw [show j.val - p * 8 = j.val % 8 by omega]
    next => rfl
  | xlib =>
    have hin : p < dispW * dispH := Nat.lt_of_lt_of_le hp (by decide)
    exact CArray.store_of_lt _ hin _

/-! ### One byte -/

/-- The address is displayed. -/
def InVideo (a : UInt32) : Prop :=
  0x400000 ≤ a.toNat ∧ a.toNat < 0x400000 + videoBytes

instance (a : UInt32) : Decidable (InVideo a) := by
  unfold InVideo; infer_instance

theorem InVideo.inRam (size : SoundRamSize n) {a : UInt32} (h : InVideo a) : InRam n a :=
  ⟨h.1, Nat.lt_of_lt_of_le h.2 (Nat.add_le_add_left
    (Nat.le_trans (by decide) size.lower) _)⟩

/-- The machine after the byte `value` has been written at `a`. -/
def written (ui : Ui) (s : Machine n) (a : UInt32) (value : UInt8) : Machine n :=
  if InRam n a then
    let s := { s with mainRam := s.mainRam.set (a.toNat - 0x400000) value }
    if InVideo a then
      { s with
        vramTouched := 1
        framebuffer := rendered ui s.vZero s.vOne s.framebuffer (a.toNat - 0x400000) value }
    else s
  else if a &&& 0xE70001 = 0x40000 then { s with svram := s.svram.set (a.toNat / 2 % 8192) value }
  else writeRegister s a value

theorem writeMainRam_eq (size : SoundRamSize n) (ui : Ui) (s : Machine n) {a : UInt32}
    (h : InRam n a) (value : UInt8) : writeMainRam ui s a value = some (written ui s a value) := by
  have hindex : a.toNat - 0x400000 < n := by
    obtain ⟨lo, hi⟩ := h
    omega
  have hvideo : a < 0x4070E0 ↔ InVideo a := by
    rw [UInt32.lt_iff_toNat_lt, InVideo]
    have := h.1
    simp only [UInt32.reduceToNat, videoBytes]
    omega
  rw [writeMainRam, ramIndex_eq size h, CArray.store_of_lt _ hindex, written, if_pos h]
  simp only [Option.bind_eq_bind, Option.bind_some, hvideo]
  by_cases hv : InVideo a
  · have hp : a.toNat - 0x400000 < videoBytes := by
      simp only [InVideo, videoBytes] at hv ⊢
      omega
    rw [if_pos hv, if_pos hv, updatePixel, renderByte_eq _ _ _ _ _ hp]
    rfl
  · rw [if_neg hv, if_neg hv]
    rfl

/-- `m68k_write_memory_8` never leaves an array and is `written`. -/
theorem m68kWriteMemory8_eq (size : SoundRamSize n) (ui : Ui) (s : Machine n) (a value : UInt32) :
    m68kWriteMemory8 ui s a value = some (written ui s a value.toUInt8) := by
  have hbyte : (value &&& 0xFF).toUInt8 = value.toUInt8 := by
    rw [UInt32.toUInt8_and]
    exact UInt8.and_neg_one
  rw [m68kWriteMemory8, hbyte]
  by_cases hram : InRam n a
  · exact (if_pos hram).trans (writeMainRam_eq size ui s hram _)
  refine (if_neg hram).trans ?_
  rw [written, if_neg hram]
  by_cases hsv : a &&& 0xE70001 = 0x40000
  · rw [if_pos hsv, if_pos hsv, svramIndex_eq, CArray.store_of_lt _ (Nat.mod_lt _ (by decide))]
    rfl
  · rw [if_neg hsv, if_neg hsv]

/-! ### The fields a byte write changes -/

/-- Two machines agree on what no bus write changes. -/
structure SameDevices (s t : Machine n) : Prop where
  mainRom : t.mainRom = s.mainRom
  svrom : t.svrom = s.svrom
  kbRd : t.kbRd = s.kbRd
  dip : t.dip = s.dip
  duartIpcr : t.duartIpcr = s.duartIpcr
  duartIsr : t.duartIsr = s.duartIsr
  duartSra : t.duartSra = s.duartSra
  duartRba : t.duartRba = s.duartRba
  serialFr : t.serialFr = s.serialFr
  translate : t.translate = s.translate
  trg : t.trg = s.trg

theorem SameDevices.trans {s t u : Machine n} (h : SameDevices s t) (h' : SameDevices t u) :
    SameDevices s u where
  mainRom := h'.mainRom.trans h.mainRom
  svrom := h'.svrom.trans h.svrom
  kbRd := h'.kbRd.trans h.kbRd
  dip := h'.dip.trans h.dip
  duartIpcr := h'.duartIpcr.trans h.duartIpcr
  duartIsr := h'.duartIsr.trans h.duartIsr
  duartSra := h'.duartSra.trans h.duartSra
  duartRba := h'.duartRba.trans h.duartRba
  serialFr := h'.serialFr.trans h.serialFr
  translate := h'.translate.trans h.translate
  trg := h'.trg.trans h.trg

/-- What a control register write changes besides the registers themselves: nothing. -/
theorem writeRegister_frame (s : Machine n) (a : UInt32) (value : UInt8) :
    (writeRegister s a value).mainRam = s.mainRam ∧ (writeRegister s a value).svram = s.svram ∧
      (writeRegister s a value).framebuffer = s.framebuffer ∧
      (writeRegister s a value).vramTouched = s.vramTouched ∧
      SameDevices s (writeRegister s a value) := by
  unfold writeRegister writeOpr
  dsimp only
  repeat' split
  all_goals exact ⟨rfl, rfl, rfl, rfl, rfl, rfl, rfl, rfl, rfl, rfl, rfl, rfl, rfl, rfl, rfl⟩

/-- No byte write changes the ROMs, the keyboard matrix, the DUART or the tick counter. -/
theorem written_sameDevices (ui : Ui) (s : Machine n) (a : UInt32) (value : UInt8) :
    SameDevices s (written ui s a value) := by
  rw [written]
  split
  · dsimp only
    split <;> exact ⟨rfl, rfl, rfl, rfl, rfl, rfl, rfl, rfl, rfl, rfl, rfl⟩
  · split
    · exact ⟨rfl, rfl, rfl, rfl, rfl, rfl, rfl, rfl, rfl, rfl, rfl⟩
    · exact (writeRegister_frame s a value).2.2.2.2

theorem written_mainRam (ui : Ui) (s : Machine n) (a : UInt32) (value : UInt8) :
    (written ui s a value).mainRam
      = if InRam n a then s.mainRam.set (a.toNat - 0x400000) value else s.mainRam := by
  rw [written]
  split
  · dsimp only
    split <;> rfl
  · split
    · rfl
    · exact (writeRegister_frame s a value).1

theorem written_svram (ui : Ui) (s : Machine n) (a : UInt32) (value : UInt8) :
    (written ui s a value).svram
      = if ¬ InRam n a ∧ a &&& 0xE70001 = 0x40000 then s.svram.set (a.toNat / 2 % 8192) value
        else s.svram := by
  rw [written]
  by_cases hram : InRam n a
  · have hneg : ¬ (¬ InRam n a ∧ a &&& 0xE70001 = 0x40000) := fun h => h.1 hram
    rw [if_pos hram, if_neg hneg]
    dsimp only
    split <;> rfl
  by_cases hsv : a &&& 0xE70001 = 0x40000
  · rw [if_neg hram, if_pos hsv, if_pos ⟨hram, hsv⟩]
  · rw [if_neg hram, if_neg hsv, if_neg fun h => hsv h.2]
    exact (writeRegister_frame s a value).2.1

/-- The framebuffer changes with a displayed byte only. -/
theorem written_framebuffer (size : SoundRamSize n) (ui : Ui) (s : Machine n) (a : UInt32)
    (value : UInt8) :
    (written ui s a value).framebuffer
      = if InVideo a then
          rendered ui s.vZero s.vOne s.framebuffer (a.toNat - 0x400000) value
        else s.framebuffer := by
  rw [written]
  by_cases hv : InVideo a
  · rw [if_pos (hv.inRam size), if_pos hv, if_pos hv]
  rw [if_neg hv]
  split
  · rfl
  · split
    · rfl
    · exact (writeRegister_frame s a value).2.2.1

/-- A displayed byte is noted in `vram_touched`. -/
theorem written_vramTouched (size : SoundRamSize n) (ui : Ui) (s : Machine n) (a : UInt32)
    (value : UInt8) :
    (written ui s a value).vramTouched = if InVideo a then 1 else s.vramTouched := by
  rw [written]
  by_cases hv : InVideo a
  · rw [if_pos (hv.inRam size), if_pos hv, if_pos hv]
  rw [if_neg hv]
  split
  · rfl
  · split
    · rfl
    · exact (writeRegister_frame s a value).2.2.2.1

/-- The registers of the video control: what a byte write leaves in `v_zero` and `v_one`. -/
def polarityStep (zo : UInt8 × UInt8) (l : UInt32 × UInt8) : UInt8 × UInt8 :=
  if l.1 = 0x840001 ∧ l.2 &&& 0x04 ≠ 0 then
    if l.2 &&& 0x10 ≠ 0 then (0xFF, 0) else (0, 0xFF)
  else zo

/-- What a byte write leaves in `v_blank`. -/
def blankStep (vBlank : UInt8) (l : UInt32 × UInt8) : UInt8 :=
  if l.1 = 0x840001 then if l.2 &&& 0x04 = 0 then 1 else 0 else vBlank

/-- The video control register is neither memory nor svram. -/
theorem written_opr (size : SoundRamSize n) (ui : Ui) (s : Machine n) (value : UInt8) :
    written ui s 0x840001 value = writeOpr s value := by
  have hn := size.upper
  rw [written, if_neg (by rw [InRam]; simp only [UInt32.reduceToNat]; omega), if_neg (by decide),
    writeRegister, if_pos rfl]

/-- What a byte write elsewhere may change. -/
theorem written_frame (ui : Ui) (s : Machine n) {a : UInt32} (value : UInt8) (h : a ≠ 0x840001) :
    ∃ mainRam svram prCont kbWr printerF serialFw framebuffer vramTouched,
      written ui s a value =
        { s with mainRam, svram, prCont, kbWr, printerF, serialFw, framebuffer, vramTouched } := by
  rw [written]
  split
  · dsimp only
    split <;> exact ⟨_, _, _, _, _, _, _, _, rfl⟩
  · split
    · exact ⟨_, _, _, _, _, _, _, _, rfl⟩
    · rw [writeRegister, if_neg h]
      repeat' split
      all_goals exact ⟨_, _, _, _, _, _, _, _, rfl⟩

/-- It leaves the video control alone. -/
theorem written_video (ui : Ui) (s : Machine n) {a : UInt32} (value : UInt8) (h : a ≠ 0x840001) :
    (written ui s a value).vZero = s.vZero ∧ (written ui s a value).vOne = s.vOne ∧
      (written ui s a value).vBlank = s.vBlank := by
  obtain ⟨_, _, _, _, _, _, _, _, hwritten⟩ := written_frame ui s value h
  rw [hwritten]
  exact ⟨rfl, rfl, rfl⟩

theorem written_polarity (size : SoundRamSize n) (ui : Ui) (s : Machine n) (l : UInt32 × UInt8) :
    ((written ui s l.1 l.2).vZero, (written ui s l.1 l.2).vOne)
      = polarityStep (s.vZero, s.vOne) l := by
  obtain ⟨a, value⟩ := l
  rw [polarityStep]
  by_cases ha : a = 0x840001
  · subst ha
    rw [written_opr size, writeOpr]
    by_cases h4 : value &&& 0x04 = 0
    · simp only [h4, if_true, ne_eq, not_true, and_false, if_false]
      split <;> rfl
    · simp only [h4, if_false, ne_eq, not_false_eq_true, and_self, if_true]
      by_cases h10 : value &&& 0x10 = 0
      · simp only [h10, not_true, if_false]
        split <;> rfl
      · simp only [h10, not_false_eq_true, if_true]
        split <;> rfl
  · obtain ⟨hz, ho, -⟩ := written_video ui s value ha
    rw [if_neg fun h => ha h.1, hz, ho]

theorem written_vBlank (size : SoundRamSize n) (ui : Ui) (s : Machine n) (l : UInt32 × UInt8) :
    (written ui s l.1 l.2).vBlank = blankStep s.vBlank l := by
  obtain ⟨a, value⟩ := l
  rw [blankStep]
  by_cases ha : a = 0x840001
  · subst ha
    rw [written_opr size, writeOpr, if_pos rfl]
    by_cases h4 : value &&& 0x04 = 0
    · simp only [h4, if_true]
      split <;> rfl
    · simp only [h4, if_false]
      repeat' split
      all_goals rfl
  · rw [if_neg ha]
    exact (written_video ui s value ha).2.2

/-! ### Lanes of a wide write -/

/-- The byte writes a bus write consists of, as address and byte. -/
def BusWrite.lanes (b : BusWrite) : List (UInt32 × UInt8) :=
  (List.range b.width.lanes).map fun k =>
    (b.base.addr + UInt32.ofNat k, laneByte b.width b.value k)

/-- The machine after byte writes. -/
def writtenAll (ui : Ui) (s : Machine n) (ls : List (UInt32 × UInt8)) : Machine n :=
  ls.foldl (fun s l => written ui s l.1 l.2) s

@[simp] theorem writtenAll_nil (ui : Ui) (s : Machine n) : writtenAll ui s [] = s := rfl

@[simp] theorem writtenAll_cons (ui : Ui) (s : Machine n) (l : UInt32 × UInt8)
    (ls : List (UInt32 × UInt8)) :
    writtenAll ui s (l :: ls) = writtenAll ui (written ui s l.1 l.2) ls := rfl

theorem writtenAll_append (ui : Ui) (s : Machine n) (ls ms : List (UInt32 × UInt8)) :
    writtenAll ui s (ls ++ ms) = writtenAll ui (writtenAll ui s ls) ms :=
  List.foldl_append

/-- A bus write of any width is the byte writes of its lanes. -/
theorem BusWrite.step_eq (size : SoundRamSize n) (ui : Ui) (s : Machine n) (b : BusWrite) :
    b.step ui s = some (writtenAll ui s b.lanes) := by
  obtain ⟨w, base, value⟩ := b
  cases w <;>
    simp [BusWrite.step, m68kWriteMemory, m68kWriteMemory16, m68kWriteMemory32,
      m68kWriteMemory8_eq size, BusWrite.lanes, Width.lanes, laneByte, List.range_succ]

/-- A run of bus writes is the byte writes of all their lanes. -/
theorem run_busWrite (size : SoundRamSize n) (ui : Ui) (s : Machine n) (ws : List BusWrite) :
    Run.run (BusWrite.step ui) s ws = some (writtenAll ui s (ws.flatMap BusWrite.lanes)) := by
  induction ws generalizing s with
  | nil => rfl
  | cons b ws ih =>
    rw [Run.run_cons, b.step_eq size, Option.bind_some, ih, List.flatMap_cons, writtenAll_append]

theorem writtenAll_sameDevices (ui : Ui) (s : Machine n) (ls : List (UInt32 × UInt8)) :
    SameDevices s (writtenAll ui s ls) := by
  induction ls generalizing s with
  | nil => exact ⟨rfl, rfl, rfl, rfl, rfl, rfl, rfl, rfl, rfl, rfl, rfl⟩
  | cons l ls ih => exact (written_sameDevices ui s l.1 l.2).trans (ih _)

end Kyacopycat
