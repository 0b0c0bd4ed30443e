import Kyacopycat.Bus.ReadEffect
import Kyacopycat.Display.Render
import Kyacopycat.MainLoop

/-!
Serial reception: the guest and the main loop on the two sides of a one-byte mailbox.

The main loop puts a byte of the input stream into `duart_rba` at a slice boundary when bit
0 of `duart_sra` is clear, and sets that bit. The guest tests the bit by reading the status
register and takes the byte by reading the data register. The bit is cleared by the status
read, so between the two reads the mailbox counts as empty although its byte is not taken.

* `LinkInv`: what relates the mailbox, the stream and the bytes kept, while no byte is
  delivered in that window.
* `serial_exact_iff`: in which runs the guest receives the stream as it is.
-/

namespace Kyacopycat

open Run

variable {n : Nat}

/-! ### The two parties -/

/-- The byte the main loop delivers for a byte of the file. -/
def translated (translate c : UInt8) : UInt8 :=
  if translate ≠ 0 ∧ c = 0x0A then 0x0D else c

/-- The machine and the guest's side of the protocol, with the history that the two
promises of the link are about. -/
structure Link (n : Nat) where
  machine : Machine n
  /-- data reads the guest owes to status reads it has acted upon -/
  owed : Nat
  /-- bytes the guest has read from the data register, oldest first -/
  kept : List UInt8
  /-- a status read has returned bit 0 set since the last data read -/
  claimed : Bool
  /-- the byte in `duart_rba` was delivered and not read since -/
  unread : Bool
  /-- a delivered byte was overwritten before it was read -/
  overwritten : Bool

/-- The link before the first slice. -/
def Link.start (s : Machine n) : Link n :=
  { machine := s, owed := 0, kept := [], claimed := false, unread := false, overwritten := false }

/-- The lane of a read at a given address. -/
def laneAt (w : Width) (a : BusAddress) (r : UInt32) : Option Nat :=
  (List.range w.lanes).find? fun k => a.addr + UInt32.ofNat k = r

/-- The serial step of the main loop puts a byte into the mailbox. -/
def Delivers (s : Machine n) (readable : Bool) : Prop :=
  readable = true ∧ s.duartSra &&& 1 = 0 ∧ ∃ c rest, s.serialFr = some (c :: rest)

instance (s : Machine n) (readable : Bool) : Decidable (Delivers s readable) :=
  decidable_of_iff (readable = true ∧ s.duartSra &&& 1 = 0 ∧ s.serialFr ≠ none ∧
      s.serialFr ≠ some []) <| by
    unfold Delivers
    rcases s.serialFr with _ | _ | ⟨c, rest⟩ <;> simp

/-- A step of either party: an access of the guest, who may act upon it when it is a status
read, or the end of a slice. -/
inductive LinkStep where
  | access (x : Access) (acts : Bool)
  | boundary (event : EventEffect) (readable : Bool)

/-- The guest's side of a read that returned `v`. The two registers are never lanes of one
access. A data read that is not owed is not in the protocol. -/
def Link.guestRead (l : Link n) (w : Width) (a : BusAddress) (acts : Bool) (v : UInt32) :
    Option (Link n) :=
  match laneAt w a 0x810003, laneAt w a 0x810007 with
  | some k, _ =>
    if laneByte w v k &&& 1 ≠ 0 then
      some { l with claimed := true, owed := l.owed + if acts then 1 else 0 }
    else some l
  | none, some k =>
    if l.owed = 0 then none
    else some { l with
      owed := l.owed - 1
      kept := l.kept ++ [laneByte w v k]
      claimed := false
      unread := false }
  | none, none => some l

/-- The link after a step. -/
def Link.step (ui : Ui) (l : Link n) : LinkStep → Option (Link n)
  | .access (.write b) _ => do
    let s ← b.step ui l.machine
    return { l with machine := s }
  | .access (.read w a) acts => do
    let (v, s) ← m68kReadMemory w l.machine a.addr
    Link.guestRead { l with machine := s } w a acts v
  | .boundary event readable =>
    let delivers := decide (Delivers l.machine readable)
    some { l with
      machine := (sliceEnd l.machine event readable).2
      unread := l.unread || delivers
      overwritten := l.overwritten || (delivers && l.unread) }

/-! ### Reads of the two registers -/

theorem laneAt_eq_some {w : Width} {a : BusAddress} {r : UInt32} {k : Nat}
    (h : laneAt w a r = some k) : k < w.lanes ∧ a.addr + UInt32.ofNat k = r := by
  have hmem := List.mem_of_find?_eq_some h
  have hlane := List.find?_some h
  exact ⟨List.mem_range.mp hmem, by simpa using hlane⟩

theorem laneAt_eq_none_iff {w : Width} {a : BusAddress} {r : UInt32} :
    laneAt w a r = none ↔ r ∉ laneAddresses w a.addr := by
  simp [laneAt, laneAddresses]

/-- The lane at the status register holds `duart_sra`, and the read clears its bit 0. -/
theorem status_read (hn : n ≤ 0x400000) {s t : Machine n} {w : Width} {a : BusAddress}
    {v : UInt32} {k : Nat} (h : m68kReadMemory w s a.addr = some (v, t))
    (hlane : laneAt w a 0x810003 = some k) :
    laneByte w v k = s.duartSra ∧ t.duartSra = s.duartSra &&& 0x04 := by
  obtain ⟨rfl, -, lanes⟩ := m68kReadMemory_lanes hn h
  obtain ⟨hk, haddr⟩ := laneAt_eq_some hlane
  obtain ⟨u, hbyte⟩ := lanes k hk
  have hlater := lane_not_mem_drop w a.addr hk
  rw [haddr] at hbyte hlater
  rw [m68kReadMemory8_sra hn, readEffects_eq, if_neg hlater] at hbyte
  have hmem : (0x810003 : UInt32) ∈ laneAddresses w a.addr := by
    by_contra hnot
    rw [laneAt_eq_none_iff.mpr hnot] at hlane
    cases hlane
  rw [readEffects_eq, if_pos hmem]
  exact ⟨(UInt8.toUInt32_inj.mp (congrArg Prod.fst (Option.some.inj hbyte))).symm, rfl⟩

/-- The lane at the data register holds `duart_rba`. -/
theorem data_read (hn : n ≤ 0x400000) {s t : Machine n} {w : Width} {a : BusAddress}
    {v : UInt32} {k : Nat} (h : m68kReadMemory w s a.addr = some (v, t))
    (hlane : laneAt w a 0x810007 = some k) : laneByte w v k = s.duartRba := by
  obtain ⟨rfl, -, lanes⟩ := m68kReadMemory_lanes hn h
  obtain ⟨hk, haddr⟩ := laneAt_eq_some hlane
  obtain ⟨u, hbyte⟩ := lanes k hk
  rw [haddr, m68kReadMemory8_rba hn, readEffects_eq] at hbyte
  exact (UInt8.toUInt32_inj.mp (congrArg Prod.fst (Option.some.inj hbyte))).symm

/-- What a read leaves of the serial input: the mailbox and the stream, and the status
register unless it is a lane. -/
theorem read_serial (hn : n ≤ 0x400000) {s t : Machine n} {w : Width} {a : BusAddress}
    {v : UInt32} (h : m68kReadMemory w s a.addr = some (v, t)) :
    t.duartRba = s.duartRba ∧ t.serialFr = s.serialFr ∧ t.translate = s.translate ∧
      (laneAt w a 0x810003 = none → t.duartSra = s.duartSra) := by
  obtain ⟨rfl, -, -⟩ := m68kReadMemory_lanes hn h
  rw [readEffects_eq]
  exact ⟨rfl, rfl, rfl, fun hnone => if_neg (laneAt_eq_none_iff.mp hnone)⟩

/-! ### The end of a slice -/

/-- What the serial input step does to the mailbox and the stream between `s` and `t`. -/
structure SerialEffect (s t : Machine n) (readable : Bool) : Prop where
  translate : t.translate = s.translate
  delivers : Delivers s readable → ∃ c rest, s.serialFr = some (c :: rest) ∧
    t.serialFr = some rest ∧ t.duartRba = translated s.translate c ∧
    t.duartSra = s.duartSra ||| 0x01
  otherwise : ¬ Delivers s readable → t.serialFr.getD [] = s.serialFr.getD [] ∧
    t.duartRba = s.duartRba ∧ t.duartSra = s.duartSra

theorem serialStep_serial (s : Machine n) (readable : Bool) :
    SerialEffect s (serialStep s readable) readable := by
  cases hfr : s.serialFr with
  | none =>
    have heq : serialStep s readable = s := by rw [serialStep, hfr]
    rw [heq]
    exact ⟨rfl, fun ⟨_, _, c, rest, h⟩ => by simp [hfr] at h, fun _ => ⟨rfl, rfl, rfl⟩⟩
  | some input =>
    by_cases hsra : s.duartSra &&& 1 = 0
    · by_cases hread : readable = true
      · cases input with
        | nil =>
          have heq : serialStep s readable = { s with serialFr := none } := by
            simp only [serialStep, hfr, hsra, hread, ne_eq, not_true, if_false, if_true]
          rw [heq]
          exact ⟨rfl, fun ⟨_, _, c, rest, h⟩ => by simp [hfr] at h,
            fun _ => ⟨by simp [hfr], rfl, rfl⟩⟩
        | cons c rest =>
          have heq : serialStep s readable = { s with
              serialFr := some rest
              duartRba := translated s.translate c
              duartSra := s.duartSra ||| 0x01
              duartIsr := s.duartIsr ||| 0x02 } := by
            simp only [serialStep, hfr, hsra, hread, ne_eq, not_true, if_false, if_true]
            rfl
          rw [heq]
          exact ⟨rfl, fun _ => ⟨c, rest, hfr, rfl, rfl, rfl⟩,
            fun hnot => absurd ⟨hread, hsra, c, rest, hfr⟩ hnot⟩
      · have heq : serialStep s readable = s := by
          simp only [serialStep, hfr, hsra, hread, ne_eq, not_true, if_false]
          rfl
        rw [heq]
        exact ⟨rfl, fun h => absurd h.1 hread, fun _ => ⟨rfl, rfl, rfl⟩⟩
    · have heq : serialStep s readable = s := by
        simp only [serialStep, hfr, hsra, ne_eq, not_false_eq_true, if_true]
      rw [heq]
      exact ⟨rfl, fun h => absurd h.2.1 hsra, fun _ => ⟨rfl, rfl, rfl⟩⟩

/-- The steps before it leave the serial input alone. -/
theorem sliceEnd_serial (s : Machine n) (event : EventEffect) (readable : Bool) :
    SerialEffect s (sliceEnd s event readable).2 readable := by
  obtain ⟨_, _, hdisp⟩ := displayStep_frame (tick s)
  obtain ⟨_, hevent⟩ := event.apply_frame (displayStep (tick s)).2
  have h := serialStep_serial (event.apply (displayStep (tick s)).2) readable
  rw [sliceEnd_snd]
  rw [hevent, hdisp] at h ⊢
  exact ⟨h.translate, h.delivers, h.otherwise⟩

/-! ### The invariant -/

/-- The bytes of the stream that are still to be delivered. -/
def remaining (s : Machine n) : List UInt8 :=
  (s.serialFr.getD []).map (translated s.translate)

/-- While no byte is delivered after a status read has claimed the one before it: the bytes
kept, the one in the mailbox and those still to come are the whole input, and the mailbox
is full from the delivery to the data read. -/
structure LinkInv (input : List UInt8) (l : Link n) : Prop where
  stream : l.kept ++ (if l.unread then [l.machine.duartRba] else []) ++ remaining l.machine = input
  full : l.unread = true ↔ l.machine.duartSra &&& 1 ≠ 0 ∨ l.claimed = true
  once : l.claimed = true → l.machine.duartSra &&& 1 = 0
  owed : l.owed ≠ 0 → l.claimed = true ∧ l.owed = 1
  overwritten : l.overwritten = false

/-- What the link promises: the guest has kept a prefix of the input, and no byte was
overwritten before it was read. -/
def Received (input : List UInt8) (l : Link n) : Prop :=
  l.kept <+: input ∧ l.overwritten = false

theorem LinkInv.received {input : List UInt8} {l : Link n} (inv : LinkInv input l) :
    Received input l :=
  ⟨⟨_, by rw [← List.append_assoc]; exact inv.stream⟩, inv.overwritten⟩

/-- A delivering slice boundary does not fall between a status read that returned bit 0 set
and the next data read. -/
def DeliversUnclaimed (l : Link n) : LinkStep → Prop
  | .boundary _ readable => Delivers l.machine readable → l.claimed = false
  | .access _ _ => True

/-- Steps that leave the serial input and the guest alone keep the invariant. -/
theorem LinkInv.frame {input : List UInt8} {l : Link n} (inv : LinkInv input l) {s : Machine n}
    (hrba : s.duartRba = l.machine.duartRba) (hsra : s.duartSra &&& 1 = l.machine.duartSra &&& 1)
    (hrem : remaining s = remaining l.machine) : LinkInv input { l with machine := s } :=
  ⟨by simpa only [hrba, hrem] using inv.stream, by simpa only [hsra] using inv.full,
    by simpa only [hsra] using inv.once, inv.owed, inv.overwritten⟩

theorem remaining_congr {s t : Machine n} (hfr : t.serialFr.getD [] = s.serialFr.getD [])
    (htr : t.translate = s.translate) : remaining t = remaining s := by
  rw [remaining, remaining, hfr, htr]

/-- A status read that returns bit 0 set claims the byte in the mailbox. -/
theorem LinkInv.statusRead {input : List UInt8} {l : Link n} (inv : LinkInv input l)
    {s : Machine n} (hrba : s.duartRba = l.machine.duartRba)
    (hsra : s.duartSra = l.machine.duartSra &&& 0x04)
    (hrem : remaining s = remaining l.machine) (acts : Bool)
    (hready : l.machine.duartSra &&& 1 ≠ 0) :
    LinkInv input { l with
      machine := s, claimed := true, owed := l.owed + if acts then 1 else 0 } := by
  have hclear : s.duartSra &&& 1 = 0 := by
    rw [hsra, UInt8.and_assoc]
    exact UInt8.and_zero
  have hunclaimed : ¬ l.claimed = true := fun h => hready (inv.once h)
  have howed : l.owed = 0 := by
    by_contra h
    exact hunclaimed (inv.owed h).1
  refine ⟨by simpa only [hrba, hrem] using inv.stream, ?_, fun _ => hclear, ?_, inv.overwritten⟩
  · exact iff_of_true (inv.full.mpr (.inl hready)) (.inr rfl)
  · intro h
    cases acts with
    | true => exact ⟨rfl, by simp [howed]⟩
    | false => exact absurd (by simpa using howed) h

/-- A data read that is owed takes the byte out of the mailbox. -/
theorem LinkInv.dataRead {input : List UInt8} {l : Link n} (inv : LinkInv input l)
    {s : Machine n} (hsra : s.duartSra = l.machine.duartSra)
    (hrem : remaining s = remaining l.machine) (howed : l.owed ≠ 0) :
    LinkInv input { l with
      machine := s, owed := l.owed - 1, kept := l.kept ++ [l.machine.duartRba]
      claimed := false, unread := false } := by
  obtain ⟨hclaimed, hone⟩ := inv.owed howed
  have hunread := inv.full.mpr (.inr hclaimed)
  have hclear := inv.once hclaimed
  refine ⟨?_, ?_, fun h => by simp at h, fun h => absurd (by simp [hone]) h, inv.overwritten⟩
  · have hstream := inv.stream
    rw [hunread, if_pos rfl] at hstream
    simpa [hrem] using hstream
  · simp [hsra, hclear]

theorem LinkInv.boundary {input : List UInt8} {l : Link n} (inv : LinkInv input l)
    (event : EventEffect) (readable : Bool) (ok : Delivers l.machine readable → l.claimed = false) :
    LinkInv input { l with
      machine := (sliceEnd l.machine event readable).2
      unread := l.unread || decide (Delivers l.machine readable)
      overwritten := l.overwritten || (decide (Delivers l.machine readable) && l.unread) } := by
  have heffect := sliceEnd_serial l.machine event readable
  by_cases hd : Delivers l.machine readable
  · obtain ⟨c, rest, hfr, hfr', hrba, hsra⟩ := heffect.delivers hd
    have hunread : l.unread = false := by
      by_contra h
      rcases inv.full.mp (by simpa using h) with hset | hclaimed
      · exact hset hd.2.1
      · rw [ok hd] at hclaimed
        cases hclaimed
    have hset : (sliceEnd l.machine event readable).2.duartSra &&& 1 ≠ 0 := by
      rw [hsra, BitField.or_one_and_one]
      decide
    refine ⟨?_, ?_, fun h => ?_, fun h => ?_, by simp [hunread, inv.overwritten]⟩
    · have hstream := inv.stream
      rw [hunread, remaining, hfr] at hstream
      simp only [hd, decide_true, Bool.or_true, if_true, hrba, remaining, hfr',
        heffect.translate]
      simpa using hstream
    · exact iff_of_true (by simp [hd]) (.inl hset)
    · rw [ok hd] at h
      cases h
    · have := (inv.owed h).1
      rw [ok hd] at this
      cases this
  · obtain ⟨hfr, hrba, hsra⟩ := heffect.otherwise hd
    simp only [hd, decide_false, Bool.or_false, Bool.false_and]
    exact inv.frame hrba (congrArg (· &&& 1) hsra) (remaining_congr hfr heffect.translate)

/-! ### Runs -/

theorem LinkInv.step (size : SoundRamSize n) {ui : Ui} {input : List UInt8} {l l' : Link n}
    {x : LinkStep} (inv : LinkInv input l) (ok : DeliversUnclaimed l x)
    (h : l.step ui x = some l') : LinkInv input l' := by
  cases x with
  | access x acts =>
    cases x with
    | write b =>
      obtain ⟨s, hs, heq⟩ := Option.bind_eq_some_iff.mp h
      obtain rfl := Option.some.inj heq
      rw [b.step_eq size] at hs
      obtain rfl := Option.some.inj hs
      have frame := writtenAll_sameDevices ui l.machine b.lanes
      exact inv.frame frame.duartRba (congrArg (· &&& 1) frame.duartSra)
        (remaining_congr (by rw [frame.serialFr]) frame.translate)
    | read w a =>
      obtain ⟨⟨v, s⟩, hread, hguest⟩ := Option.bind_eq_some_iff.mp h
      obtain ⟨hrba, hfr, htr, hsra⟩ := read_serial size.upper hread
      have hrem : remaining s = remaining l.machine := remaining_congr (by rw [hfr]) htr
      replace hguest : Link.guestRead { l with machine := s } w a acts v = some l' := hguest
      cases hstatus : laneAt w a 0x810003 with
      | some k =>
        obtain ⟨hv, hsra'⟩ := status_read size.upper hread hstatus
        rw [Link.guestRead, hstatus] at hguest
        simp only [hv] at hguest
        by_cases hready : l.machine.duartSra &&& 1 = 0
        · rw [if_neg fun h => h hready] at hguest
          obtain rfl := Option.some.inj hguest
          refine inv.frame hrba ?_ hrem
          rw [hsra', hready, UInt8.and_assoc]
          exact UInt8.and_zero
        · rw [if_pos hready] at hguest
          obtain rfl := Option.some.inj hguest
          exact inv.statusRead hrba hsra' hrem acts hready
      | none =>
        cases hdata : laneAt w a 0x810007 with
        | some k =>
          rw [Link.guestRead, hstatus, hdata] at hguest
          simp only [data_read size.upper hread hdata] at hguest
          by_cases howed : l.owed = 0
          · rw [if_pos howed] at hguest
            cases hguest
          · rw [if_neg howed] at hguest
            obtain rfl := Option.some.inj hguest
            exact inv.dataRead (hsra hstatus) hrem howed
        | none =>
          rw [Link.guestRead, hstatus, hdata] at hguest
          obtain rfl := Option.some.inj hguest
          exact inv.frame hrba (congrArg (· &&& 1) (hsra hstatus)) hrem
  | boundary event readable =>
    obtain rfl := Option.some.inj h
    exact inv.boundary event readable ok

/-- A byte delivered into a claimed mailbox overwrites one that was not read. -/
theorem LinkInv.strict {ui : Ui} {input : List UInt8} {l l' : Link n} {x : LinkStep}
    (inv : LinkInv input l) (bad : ¬ DeliversUnclaimed l x) (h : l.step ui x = some l') :
    ¬ Received input l' := by
  cases x with
  | access x acts => exact absurd trivial bad
  | boundary event readable =>
    simp only [DeliversUnclaimed, Classical.not_imp, Bool.not_eq_false] at bad
    obtain ⟨hd, hclaimed⟩ := bad
    obtain rfl := Option.some.inj h
    rintro ⟨-, hover⟩
    simp [hd, inv.full.mpr (.inr hclaimed)] at hover

theorem linkInv_start {s : Machine n} (hsra : s.duartSra &&& 1 = 0) :
    LinkInv (remaining s) (Link.start s) :=
  ⟨rfl, by simp [Link.start, hsra], fun h => absurd h Bool.false_ne_true, fun h => absurd rfl h,
    rfl⟩

/-- **When serial reception is exact.** Over any input and any interleaving, the bytes kept
are always a prefix of the input and no byte is overwritten unread, exactly when the main
loop never delivers a byte between a status read that returned bit 0 set and the guest's
next data read. -/
theorem serial_exact_iff (ui : Ui) (l : Loaded ramSize) (input : List UInt8)
    (xs : List LinkStep) :
    ∃ s, startUp ui { l with serialFr := some input } = some s ∧
      (Always (Link.step ui) (Received (input.map (translated l.translate))) (Link.start s) xs
        ↔ Meets (Link.step ui) DeliversUnclaimed (Link.start s) xs) := by
  have hn : videoBytes ≤ ramSize := by decide
  refine ⟨_, startUp_eq ui hn _, ?_⟩
  exact always_iff_meets (fun _ inv => inv.received)
    (fun _ _ _ inv ok h => inv.step soundRamSize_ramSize ok h)
    (fun _ _ _ inv bad h => inv.strict bad h)
    (linkInv_start (show (0x04 : UInt8) &&& 1 = 0 by decide))

/-- A slice ends between the guest's status read and its data read, with another byte
ready: the guest receives the second byte only. -/
theorem not_serial_exact_boundary :
    ¬ ∀ (ui : Ui) (l : Loaded ramSize) (input : List UInt8) (xs : List LinkStep)
      (s : Machine ramSize), startUp ui { l with serialFr := some input } = some s →
        Always (Link.step ui) (Received (input.map (translated l.translate))) (Link.start s)
          xs := by
  intro all
  have hn : videoBytes ≤ ramSize := by decide
  have always := all .sdl (Loaded.zero ramSize) [0x41, 0x42]
    [.boundary ⟨none, false⟩ true, .access (.read .byte (address68k 0x810003)) true,
      .boundary ⟨none, false⟩ true, .access (.read .byte (address68k 0x810007)) false]
    _ (startUp_eq .sdl hn _)
  have received := always.last rfl
  exact absurd received.1 (by decide)

end Kyacopycat
