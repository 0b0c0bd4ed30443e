import Kyacopycat.Bus.ByteStore

/-!
What a bus write may change.

`WriteFrame` is the footprint of a write on its lanes: which cells of the memories, which
entries of the framebuffer and which registers may differ afterwards. It holds of a byte
write and is closed under composition, so it holds of the writes of any width.

* `writeFrame_written`: the footprint of a byte write.
* `write_bounds_and_frame`: every write stays inside its arrays and inside its footprint.
-/

namespace Kyacopycat

variable {n : Nat}

/-- The entry `j` of the framebuffer shows the byte of video RAM at `a`. -/
def ShowsByte (ui : Ui) (a : UInt32) (j : Fin (dispW * dispH)) : Prop :=
  match ui with
  | .sdl => j.val / 8 = a.toNat - 0x400000
  | .xlib => j.val = a.toNat - 0x400000

/-- The registers behind the control address `0x840001`. -/
def controlRegisters (s : Machine n) : UInt8 × UInt8 × UInt8 × UInt8 × UInt8 :=
  (s.opr, s.vZero, s.vOne, s.vBlank, s.watchdog)

/-- What may differ after byte writes at the given addresses. Each of them is the address
of one cell at most. -/
structure WriteFrame (ui : Ui) (as : List UInt32) (s t : Machine n) : Prop where
  cells : ∀ c, contents t c ≠ contents s c → ∃ a ∈ as, cellOf n a = some c
  framebuffer : ∀ j, t.framebuffer j ≠ s.framebuffer j →
    ∃ a ∈ as, InVideo a ∧ ShowsByte ui a j
  vramTouched : t.vramTouched ≠ s.vramTouched → ∃ a ∈ as, InVideo a
  control : controlRegisters t ≠ controlRegisters s → (0x840001 : UInt32) ∈ as
  devices : SameDevices s t

/-! ### One byte -/

/-- Rendering a byte changes the entries that show it. -/
theorem rendered_of_not_shows {ui : Ui} {a : UInt32} {j : Fin (dispW * dispH)}
    (h : ¬ ShowsByte ui a j) (vZero vOne value : UInt8) (fb : CArray UInt8 (dispW * dispH)) :
    rendered ui vZero vOne fb (a.toNat - 0x400000) value j = fb j := by
  cases ui with
  | sdl => exact if_neg h
  | xlib => exact if_neg h

/-- A register write elsewhere leaves the control registers alone. -/
theorem written_control (ui : Ui) (s : Machine n) {a : UInt32} (value : UInt8)
    (h : a ≠ 0x840001) : controlRegisters (written ui s a value) = controlRegisters s := by
  obtain ⟨_, _, _, _, _, _, _, _, hwritten⟩ := written_frame ui s value h
  rw [hwritten]
  rfl

/-- A byte write keeps to its footprint. -/
theorem writeFrame_written (size : SoundRamSize n) (ui : Ui) (s : Machine n) (a : UInt32)
    (value : UInt8) : WriteFrame ui [a] s (written ui s a value) where
  cells := by
    intro c hc
    refine ⟨a, List.mem_singleton_self a, ?_⟩
    cases h : cellOf n a with
    | none => exact absurd (by rw [contents_written_none ui s value h]) hc
    | some d =>
      rw [contents_written ui s value h, Function.update_apply] at hc
      by_cases hd : c = d
      · rw [hd]
      · exact absurd (if_neg hd) hc
  framebuffer := by
    intro j hj
    rw [written_framebuffer size] at hj
    by_cases hv : InVideo a
    · rw [if_pos hv] at hj
      refine ⟨a, List.mem_singleton_self a, hv, ?_⟩
      by_contra hshows
      exact hj (rendered_of_not_shows hshows _ _ _ _)
    · rw [if_neg hv] at hj
      exact absurd rfl hj
  vramTouched := by
    intro h
    rw [written_vramTouched size] at h
    by_cases hv : InVideo a
    · exact ⟨a, List.mem_singleton_self a, hv⟩
    · rw [if_neg hv] at h
      exact absurd rfl h
  control := by
    intro h
    by_contra hne
    exact h (written_control ui s value fun ha => hne (List.mem_singleton.mpr ha.symm))
  devices := written_sameDevices ui s a value

/-! ### Composition -/

theorem WriteFrame.refl (ui : Ui) (s : Machine n) : WriteFrame ui [] s s where
  cells := fun _ h => absurd rfl h
  framebuffer := fun _ h => absurd rfl h
  vramTouched := fun h => absurd rfl h
  control := fun h => absurd rfl h
  devices := writtenAll_sameDevices ui s []

/-- A change over two steps is a change in one of them. -/
theorem ne_or_ne_of_ne {α : Type} {x y z : α} (h : z ≠ x) : y ≠ x ∨ z ≠ y := by
  by_cases hy : y = x
  · exact .inr fun hz => h (hz.trans hy)
  · exact .inl hy

/-- A property of an address of either list is one of an address of both. -/
theorem exists_mem_append {as bs : List UInt32} {P : UInt32 → Prop}
    (h : (∃ a ∈ as, P a) ∨ ∃ a ∈ bs, P a) : ∃ a ∈ as ++ bs, P a := by
  rcases h with ⟨a, ha, hP⟩ | ⟨a, ha, hP⟩
  · exact ⟨a, List.mem_append_left _ ha, hP⟩
  · exact ⟨a, List.mem_append_right _ ha, hP⟩

theorem WriteFrame.append {ui : Ui} {as bs : List UInt32} {s t u : Machine n}
    (h : WriteFrame ui as s t) (h' : WriteFrame ui bs t u) : WriteFrame ui (as ++ bs) s u where
  cells := fun c hc => exists_mem_append ((ne_or_ne_of_ne hc).imp (h.cells c) (h'.cells c))
  framebuffer := fun j hj =>
    exists_mem_append ((ne_or_ne_of_ne hj).imp (h.framebuffer j) (h'.framebuffer j))
  vramTouched := fun hv =>
    exists_mem_append ((ne_or_ne_of_ne hv).imp h.vramTouched h'.vramTouched)
  control := fun hc => List.mem_append.mpr ((ne_or_ne_of_ne hc).imp h.control h'.control)
  devices := h.devices.trans h'.devices

theorem writeFrame_writtenAll (size : SoundRamSize n) (ui : Ui) (s : Machine n)
    (ls : List (UInt32 × UInt8)) : WriteFrame ui (ls.map Prod.fst) s (writtenAll ui s ls) := by
  induction ls generalizing s with
  | nil => exact .refl ui s
  | cons l ls ih => exact (writeFrame_written size ui s l.1 l.2).append (ih _)

/-! ### Writes of any width -/

/-- The addresses of the lanes of a write. -/
theorem BusWrite.map_fst_lanes (b : BusWrite) :
    b.lanes.map Prod.fst = laneAddresses b.width b.base.addr := by
  rw [BusWrite.lanes, List.map_map]
  rfl

/-- **Bounds and frame of the write handlers.** Every write of the CPU core, in either front
end, stays inside its arrays. It changes at most the one cell that each of its lanes
addresses, the entries of the framebuffer that show a lane in the video RAM, and the control
registers if a lane is at their address; and it changes nothing that the ROMs, the keyboard,
the switches, the tick counter and the DUART hold. -/
theorem write_bounds_and_frame (ui : Ui) (s : Machine ramSize) (b : BusWrite) :
    ∃ t, m68kWriteMemory ui b.width s b.base.addr b.value = some t ∧
      WriteFrame ui (laneAddresses b.width b.base.addr) s t := by
  refine ⟨_, b.step_eq soundRamSize_ramSize ui s, ?_⟩
  rw [← b.map_fst_lanes]
  exact writeFrame_writtenAll soundRamSize_ramSize ui s b.lanes

end Kyacopycat
