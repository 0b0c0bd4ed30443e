import Kyacopycat.Bus.Bounds
import Kyacopycat.Bus.ReadEffect
import Kyacopycat.Lib.LastWrite

/-!
The bus as a byte store.

`Cell` is a cell of the abstract store: a byte of the RAM or of the svram. `cellOf`
sends an address to its cell, all mirrors of the svram to one. `cellWrites` is the
history of writes a run of accesses makes to the cells, and `LastWrite.valueAt` what a
store holds after it.

* `contents_written`: a byte write updates the store at its cell and nowhere else.
* `m68kReadMemory8_cell`: a byte read returns what the store holds at its cell.
* `bus_byte_store`: the store the bus implements, over whole runs.
-/

namespace Kyacopycat

open Run LastWrite

variable {n : Nat}

/-! ### The abstract store -/

/-- The cells of the store. -/
inductive Cell (n : Nat) where
  | ram (i : Fin n)
  | sv (i : Fin 8192)
  deriving DecidableEq

/-- The cell an address names, if it is a cell address. -/
def cellOf (n : Nat) (a : UInt32) : Option (Cell n) :=
  if h : InRam n a then some (.ram ⟨a.toNat - 0x400000, by obtain ⟨lo, hi⟩ := h; omega⟩)
  else if a &&& 0xE70001 = 0x40000 then
    some (.sv ⟨((a >>> 1) &&& 0x1FFF).toNat, by rw [svramIndex_eq]; omega⟩)
  else none

/-- What the arrays of the machine hold at a cell. -/
def contents (s : Machine n) : Cell n → UInt8
  | .ram i => s.mainRam i
  | .sv i => s.svram i

/-- Odd addresses of the svram window, behind which there is no memory. -/
def OddSvram (a : UInt32) : Prop :=
  a &&& 0xE70000 = 0x40000 ∧ a.toNat % 2 = 1

/-- Those of a list of byte writes that are made to cells. -/
def cellHistory (n : Nat) (ls : List (UInt32 × UInt8)) : List (Cell n × UInt8) :=
  ls.filterMap fun l => (cellOf n l.1).map fun c => (c, l.2)

/-- The writes an access makes to the cells, oldest first. -/
def cellWrites (n : Nat) : Access → List (Cell n × UInt8)
  | .read _ _ => []
  | .write b => cellHistory n b.lanes

/-- No lane of the access reads past the end of `main_rom`. -/
def Access.InBounds : Access → Prop
  | .read w a => ∀ k < w.lanes, ¬ RomHole (a.addr + UInt32.ofNat k)
  | .write _ => True

instance : (x : Access) → Decidable x.InBounds
  | .read w a => inferInstanceAs (Decidable (∀ k < w.lanes, ¬ RomHole (a.addr + UInt32.ofNat k)))
  | .write _ => inferInstanceAs (Decidable True)

/-- The four memories agree. -/
structure SameMemory (s t : Machine n) : Prop where
  mainRom : t.mainRom = s.mainRom
  svrom : t.svrom = s.svrom
  mainRam : t.mainRam = s.mainRam
  svram : t.svram = s.svram

theorem SameMemory.refl (s : Machine n) : SameMemory s s := ⟨rfl, rfl, rfl, rfl⟩

theorem SameMemory.trans {s t u : Machine n} (h : SameMemory s t) (h' : SameMemory t u) :
    SameMemory s u :=
  ⟨h'.mainRom.trans h.mainRom, h'.svrom.trans h.svrom, h'.mainRam.trans h.mainRam,
    h'.svram.trans h.svram⟩

theorem SameMemory.contents {s t : Machine n} (h : SameMemory s t) :
    contents t = contents s := by
  funext c
  cases c with
  | ram i => exact congrFun h.mainRam i
  | sv i => exact congrFun h.svram i

/-! ### Writes -/

/-- A byte write updates the store at its cell and nowhere else. -/
theorem contents_written (ui : Ui) (s : Machine n) {a : UInt32} {c : Cell n} (value : UInt8)
    (h : cellOf n a = some c) :
    contents (written ui s a value) = Function.update (contents s) c value := by
  unfold cellOf at h
  funext d
  split at h
  next hram =>
    cases h
    cases d with
    | ram i =>
      rw [contents, written_mainRam, if_pos hram, CArray.set_apply, Function.update_apply]
      simp only [Cell.ram.injEq, Fin.ext_iff]
      rfl
    | sv i =>
      rw [contents, written_svram, if_neg fun h => h.1 hram, Function.update_of_ne (by simp)]
      rfl
  next hram =>
    split at h
    next hsv =>
      cases h
      cases d with
      | ram i =>
        rw [contents, written_mainRam, if_neg hram, Function.update_of_ne (by simp)]
        rfl
      | sv i =>
        rw [contents, written_svram, if_pos ⟨hram, hsv⟩, CArray.set_apply, Function.update_apply]
        simp only [Cell.sv.injEq, Fin.ext_iff, svramIndex_eq]
        rfl
    next => cases h

/-- A byte write at any other address leaves the store alone. -/
theorem contents_written_none (ui : Ui) (s : Machine n) {a : UInt32} (value : UInt8)
    (h : cellOf n a = none) : contents (written ui s a value) = contents s := by
  unfold cellOf at h
  split at h
  next => cases h
  next hram =>
    split at h
    next => cases h
    next hsv =>
      funext d
      cases d with
      | ram i => rw [contents, written_mainRam, if_neg hram]; rfl
      | sv i => rw [contents, written_svram, if_neg fun h => hsv h.2]; rfl

/-- The store after byte writes is the one their history leaves. -/
theorem contents_writtenAll (ui : Ui) (s : Machine n) (ls : List (UInt32 × UInt8)) :
    contents (writtenAll ui s ls) = valueAt (contents s) (cellHistory n ls) := by
  unfold cellHistory
  induction ls generalizing s with
  | nil => simp
  | cons l ls ih =>
    rw [writtenAll_cons, ih]
    cases h : cellOf n l.1 with
    | none => rw [contents_written_none _ _ _ h, List.filterMap_cons_none (by rw [h]; rfl)]
    | some c =>
      rw [contents_written _ _ _ h, List.filterMap_cons_some (by rw [h]; rfl), valueAt_cons]

/-! ### Byte reads -/

/-- Byte reads change no memory. -/
theorem readEffects_memory (s : Machine n) (as : List UInt32) :
    SameMemory s (readEffects s as) := by
  rw [readEffects_eq]
  exact ⟨rfl, rfl, rfl, rfl⟩

/-- A byte read of a cell address returns what the cell holds. -/
theorem m68kReadMemory8_cell (size : SoundRamSize n) (s : Machine n) {a : UInt32} {c : Cell n}
    (h : cellOf n a = some c) : m68kReadMemory8 s a = some ((contents s c).toUInt32, s) := by
  unfold cellOf at h
  split at h
  next hram =>
    cases h
    have hlt : a.toNat - 0x400000 < n := by
      obtain ⟨lo, hi⟩ := hram
      omega
    rw [m68kReadMemory8_ram size.upper s hram, ramIndex_eq size hram, CArray.load_of_lt _ hlt]
    rfl
  next hram =>
    split at h
    next hsv =>
      cases h
      have hrom := (svramTest_iff a).mp hsv
      rw [m68kReadMemory8, if_neg (by rw [romTest_iff]; omega), if_pos hsv,
        CArray.load_of_lt _ (by rw [svramIndex_eq]; omega)]
      rfl
    next => cases h

/-- An odd address of the svram window reads 0. -/
theorem m68kReadMemory8_oddSvram (s : Machine n) {a : UInt32} (h : OddSvram a) :
    m68kReadMemory8 s a = some (0, s) := by
  obtain ⟨window, odd⟩ := h
  rw [svramWindow_iff] at window
  rw [m68kReadMemory8, if_neg (by rw [romTest_iff]; omega), if_neg (by rw [svramTest_iff]; omega),
    if_neg (by rw [svromTest_iff]; omega), if_pos (by rw [lowArea_iff]; omega)]

/-- An odd address of the svram window swallows writes. -/
theorem written_oddSvram (size : SoundRamSize n) (ui : Ui) (s : Machine n) {a : UInt32}
    (h : OddSvram a) (value : UInt8) : written ui s a value = s := by
  obtain ⟨window, odd⟩ := h
  have hn := size.upper
  rw [svramWindow_iff] at window
  have hne : ∀ c : UInt32, c.toNat / 0x200000 % 8 ≠ 0 → a ≠ c := by
    rintro c hc rfl
    exact hc window.1
  rw [written, if_neg (by rw [InRam]; omega), if_neg (by rw [svramTest_iff]; omega), writeRegister,
    if_neg (hne _ (by decide)), if_neg (hne _ (by decide)), if_neg (hne _ (by decide)),
    if_neg fun h => hne _ (by decide) h.1, if_neg fun h => hne _ (by decide) h.1]

/-! ### Whole runs -/

/-- What the bus is for: the store of its cells, with the ROMs beside it. `Holds` says
that the machine has the contents `store` and the ROMs of `s₀`. -/
structure Holds (s₀ : Machine n) (store : Cell n → UInt8) (s : Machine n) : Prop where
  contents : contents s = store
  mainRom : s.mainRom = s₀.mainRom
  svrom : s.svrom = s₀.svrom

/-- One access: it is defined, and the store after it is the one its writes leave. -/
theorem Holds.step (size : SoundRamSize n) (ui : Ui) {s₀ s : Machine n} {store : Cell n → UInt8}
    (holds : Holds s₀ store s) (x : Access) (inb : x.InBounds) :
    ∃ t, x.step ui s = some t ∧ Holds s₀ (valueAt store (cellWrites n x)) t := by
  cases x with
  | read w a =>
    obtain ⟨⟨v, t⟩, h⟩ := Option.isSome_iff_exists.mp
      ((m68kReadMemory_isSome_iff w s a.addr).mpr fun k hk => by
        have hlane := a.toNat_add (Nat.lt_of_lt_of_le hk w.lanes_le)
        have hbase := a.lt
        have hlanes := w.lanes_le
        rw [← romHole_iff _ (by omega)]
        exact inb k hk)
    obtain ⟨ht, -, -⟩ := m68kReadMemory_lanes size.upper h
    have mem : SameMemory s t := ht ▸ readEffects_memory s _
    refine ⟨t, by simp [Access.step, h], ?_⟩
    rw [cellWrites, valueAt_nil]
    exact ⟨mem.contents.trans holds.contents, mem.mainRom.trans holds.mainRom,
      mem.svrom.trans holds.svrom⟩
  | write b =>
    have frame := writtenAll_sameDevices ui s b.lanes
    refine ⟨_, b.step_eq size ui s, ?_, frame.mainRom.trans holds.mainRom,
      frame.svrom.trans holds.svrom⟩
    rw [contents_writtenAll, holds.contents, cellWrites]

/-- A run of accesses: it is defined, and the store after it is the one the history of its
writes leaves. -/
theorem Holds.run (size : SoundRamSize n) (ui : Ui) {s₀ s : Machine n} {store : Cell n → UInt8}
    (holds : Holds s₀ store s) (xs : List Access) (inb : ∀ x ∈ xs, x.InBounds) :
    ∃ t, Run.run (Access.step ui) s xs = some t ∧
      Holds s₀ (valueAt store (xs.flatMap (cellWrites n))) t := by
  induction xs generalizing s store with
  | nil => exact ⟨s, rfl, by simpa using holds⟩
  | cons x xs ih =>
    obtain ⟨u, hu, holds'⟩ := holds.step size ui x (inb x List.mem_cons_self)
    obtain ⟨t, ht, holds''⟩ := ih holds' fun y hy => inb y (List.mem_cons_of_mem _ hy)
    refine ⟨t, by rw [run_cons, hu]; exact ht, ?_⟩
    rwa [List.flatMap_cons, valueAt_append]

/-- **The bus is a byte store.** After any run of accesses of any width from any contents,
a read returns at each lane on a cell the byte most recently written there by a lane of an
earlier write, or what the cell held to begin with; the lanes fill the value in big-endian
order; odd lanes of the svram window read 0 and swallow writes; and the ROMs keep their
contents. -/
theorem bus_byte_store (ui : Ui) (s₀ : Machine ramSize) (xs : List Access)
    (inb : ∀ x ∈ xs, x.InBounds) :
    ∃ s, Run.run (Access.step ui) s₀ xs = some s ∧
      s.mainRom = s₀.mainRom ∧ s.svrom = s₀.svrom ∧
      (∀ a value : UInt32, OddSvram a → m68kWriteMemory8 ui s a value = some s) ∧
      ∀ (w : Width) (a : BusAddress), (Access.read w a).InBounds →
        ∃ v t, m68kReadMemory w s a.addr = some (v, t) ∧ v.toNat < 256 ^ w.lanes ∧
          ∀ k < w.lanes,
            (∀ c, cellOf ramSize (a.addr + UInt32.ofNat k) = some c →
              laneByte w v k = valueAt (contents s₀) (xs.flatMap (cellWrites ramSize)) c) ∧
            (OddSvram (a.addr + UInt32.ofNat k) → laneByte w v k = 0) := by
  have size := soundRamSize_ramSize
  have start : Holds s₀ (contents s₀) s₀ := ⟨rfl, rfl, rfl⟩
  obtain ⟨s, hrun, holds⟩ := start.run size ui xs inb
  refine ⟨s, hrun, holds.mainRom, holds.svrom, ?_, ?_⟩
  · intro a value odd
    rw [m68kWriteMemory8_eq size, written_oddSvram size ui s odd]
  · intro w a inb'
    obtain ⟨t, hstep, -⟩ := holds.step size ui (.read w a) inb'
    obtain ⟨⟨v, t'⟩, hread, -⟩ := Option.map_eq_some_iff.mp hstep
    obtain ⟨-, hlt, lanes⟩ := m68kReadMemory_lanes size.upper hread
    refine ⟨v, t', hread, hlt, fun k hk => ?_⟩
    obtain ⟨u, hbyte⟩ := lanes k hk
    have mem := readEffects_memory s ((laneAddresses w a.addr).drop (k + 1))
    constructor
    · intro c hc
      rw [m68kReadMemory8_cell size _ hc, mem.contents, holds.contents] at hbyte
      exact (UInt8.toUInt32_inj.mp (congrArg Prod.fst (Option.some.inj hbyte))).symm
    · intro odd
      rw [m68kReadMemory8_oddSvram _ odd] at hbyte
      have hzero : UInt8.toUInt32 0 = (laneByte w v k).toUInt32 :=
        congrArg Prod.fst (Option.some.inj hbyte)
      exact (UInt8.toUInt32_inj.mp hzero).symm

/-- A long write, read back by an unaligned word read inside it. -/
theorem bus_byte_store_unaligned :
    ∃ s v t, Run.run (Access.step .xlib) (Machine.initial ramSize)
        [.write ⟨.long, address68k 0x400000, 0x12345678⟩] = some s ∧
      m68kReadMemory .word s (address68k 0x400001).addr = some (v, t) ∧
      laneByte .word v 0 = 0x34 ∧ laneByte .word v 1 = 0x56 := by
  obtain ⟨s, hrun, -, -, -, reads⟩ := bus_byte_store .xlib (Machine.initial ramSize)
    [.write ⟨.long, address68k 0x400000, 0x12345678⟩] (by decide)
  obtain ⟨v, t, hread, -, lanes⟩ := reads .word (address68k 0x400001) (by decide)
  refine ⟨s, v, t, hrun, hread, ?_, ?_⟩
  · exact ((lanes 0 (by decide)).1 (.ram ⟨1, by decide⟩) (by decide)).trans (by decide)
  · exact ((lanes 1 (by decide)).1 (.ram ⟨2, by decide⟩) (by decide)).trans (by decide)

end Kyacopycat
