import Kyacopycat.Keyboard.Xlib
import Kyacopycat.Lib.History

/-!
The keyboard of the SDL front end: `sdlkeymess.h` and the key events of the main loop.

A key event is routed by its keysym when that is a letter and remapping is on, and by its
scancode otherwise. Both belong to the physical key, so a key always has the same cell, but
several keys may have one cell in common, and the matrix keeps a single bit for them.

* `matrix_sdlKeyEvents`: a cell is down exactly while the last event routed to it is a press.
* `sdl_cell_down_iff`: what that says about the keys that are held.
-/

namespace Kyacopycat

open LastWrite History

/-! ### The tables -/

/-- `SDL_NUM_SCANCODES`. -/
abbrev sdlNumScancodes : Int32 := 512

/-- The key of a scancode, as row and column. -/
def sdlScancodeKey (scancode : Int) : Option (UInt8 × UInt8) :=
  match scancode with
  | 17 => some (0, 0) -- N
  | 16 => some (0, 1) -- M
  | 14 => some (0, 2) -- K
  | 13 => some (0, 3) -- J
  | 28 => some (0, 4) -- Y
  | 23 => some (0, 5) -- T
  | 5 => some (1, 0) -- B
  | 15 => some (1, 2) -- L
  | 11 => some (1, 3) -- H
  | 24 => some (1, 4) -- U
  | 21 => some (1, 5) -- R
  | 25 => some (2, 0) -- V
  | 10 => some (2, 3) -- G
  | 12 => some (2, 4) -- I
  | 6 => some (3, 0) -- C
  | 9 => some (3, 3) -- F
  | 18 => some (3, 4) -- O
  | 8 => some (3, 5) -- E
  | 27 => some (4, 0) -- X
  | 7 => some (4, 3) -- D
  | 19 => some (4, 4) -- P
  | 26 => some (4, 5) -- W
  | 29 => some (5, 0) -- Z
  | 22 => some (5, 3) -- S
  | 20 => some (5, 5) -- Q
  | 4 => some (6, 3) -- A
  -- the digits, each with its twin on the keypad
  | 30 | 89 => some (5, 7)
  | 31 | 90 => some (4, 7)
  | 32 | 91 => some (2, 7)
  | 33 | 92 => some (1, 7)
  | 34 | 93 => some (0, 7)
  | 35 | 94 => some (0, 6)
  | 36 | 95 => some (1, 6)
  | 37 | 96 => some (2, 6)
  | 38 | 97 => some (3, 6)
  | 39 | 98 => some (4, 6)
  | 54 => some (1, 1) -- comma
  | 55 | 99 => some (2, 1) -- period
  | 52 => some (2, 2) -- apostrophe
  | 49 => some (3, 2) -- backslash
  | 47 | 75 => some (5, 4) -- left bracket, page up
  | 45 | 86 => some (5, 6) -- minus
  | 56 | 84 => some (6, 2) -- slash
  | 48 => some (6, 4) -- right bracket
  | 46 => some (6, 6) -- equals
  | 53 => some (7, 7) -- grave
  | 226 => some (3, 1) -- left use front
  | 230 => some (4, 1) -- right use front
  | 44 => some (5, 1) -- space
  | 40 => some (5, 2) -- return
  | 224 => some (6, 1) -- left leap
  | 43 => some (6, 5) -- tab
  | 225 | 229 => some (7, 0) -- shift
  | 228 => some (7, 1) -- right leap
  | 77 | 231 => some (7, 2) -- document, page
  | 57 => some (7, 3) -- lock
  | 42 => some (7, 4) -- erase
  | 74 => some (7, 6) -- undo
  | _ => none

/-- `handle_sdl_sym`, as the call of `change_keyreg_state` it makes. The letters have the
keys that they have in the table of the Xlib front end. -/
def handleSdlSym (sym state : UInt8) : Option KeyChange :=
  keyChange (xlibCharKey (sym &&& 0x5F)) state

/-- `handle_sdl_scancode`, as the call of `change_keyreg_state` it makes. -/
def handleSdlScancode (scancode : Int32) (state : UInt8) : Option KeyChange :=
  if scancode < 1 ∨ scancode > sdlNumScancodes then none
  else keyChange (sdlScancodeKey scancode.toInt) state

/-! ### Events -/

/-- The scancode and the keysym of a physical key. -/
structure SdlKey where
  scancode : Int32
  sym : Int32
  deriving DecidableEq, Repr

/-- The types of a key event. -/
inductive SdlEventType where
  | keyDown
  | keyUp
  deriving DecidableEq, Repr

/-- The call of `change_keyreg_state` a key event of the main loop makes, if any. -/
def sdlKeyEvent (remap : UInt8) (type : SdlEventType) (key : SdlKey) : Option KeyChange :=
  let state : UInt8 := if type = .keyUp then 1 else 0
  let sym := key.sym.toUInt32
  if remap ≠ 0 ∧ ((sym ≤ 0x5A ∧ sym ≥ 0x41) ∨ (sym ≤ 0x7A ∧ sym ≥ 0x61)) then
    handleSdlSym sym.toUInt8 state
  else handleSdlScancode key.scancode state

/-- A key event of a host with the physical keys `K`. -/
structure HostKeyEvent (K : Type) where
  key : K
  type : SdlEventType

variable {K : Type}

/-- The matrix bytes after the key events of a host, from a matrix that is all up. -/
def sdlKeyEvents (remap : UInt8) (keys : K → SdlKey) (es : List (HostKeyEvent K)) :
    CArray UInt8 8 :=
  (es.filterMap fun e => sdlKeyEvent remap e.type (keys e.key)).foldl KeyChange.apply
    (CArray.fill 0xFF)

/-- The cell of the matrix a physical key is routed to. -/
def sdlCell (remap : UInt8) (key : SdlKey) : Option KeyCell :=
  (sdlKeyEvent remap .keyDown key).bind fun k => keyCell k.y k.x

/-- The key has been pressed and not released since. -/
def Held (es : List (HostKeyEvent K)) (k : K) : Prop :=
  Since (fun e => e.key = k ∧ e.type = .keyDown) (fun e => ¬ (e.key = k ∧ e.type = .keyUp)) es

/-- The last event routed to the cell is a press. -/
def LastPressed (remap : UInt8) (keys : K → SdlKey) (es : List (HostKeyEvent K)) (c : KeyCell) :
    Prop :=
  Since (fun e => sdlCell remap (keys e.key) = some c ∧ e.type = .keyDown)
    (fun e => sdlCell remap (keys e.key) ≠ some c) es

/-! ### What events leave in the matrix -/

/-- The writes that events make to the cells, oldest first: a release sets the flag of the
cell it is routed to, a press clears it. -/
def sdlHistory (remap : UInt8) (keys : K → SdlKey) (es : List (HostKeyEvent K)) :
    List (KeyCell × Bool) :=
  es.filterMap fun e => (sdlCell remap (keys e.key)).map fun c => (c, decide (e.type = .keyUp))

/-- Where an event is routed does not depend on its type. -/
theorem sdlKeyEvent_route (remap : UInt8) (key : SdlKey) :
    ∃ route, ∀ type, sdlKeyEvent remap type key
      = keyChange route (if type = SdlEventType.keyUp then 1 else 0) := by
  unfold sdlKeyEvent handleSdlSym handleSdlScancode
  dsimp only
  split
  · exact ⟨_, fun _ => rfl⟩
  · split
    · exact ⟨none, fun _ => rfl⟩
    · exact ⟨_, fun _ => rfl⟩

/-- An event writes the flag of its cell. -/
theorem sdlKeyEvent_cell (remap : UInt8) (type : SdlEventType) (key : SdlKey) :
    ((sdlKeyEvent remap type key).bind fun k =>
        (keyCell k.y k.x).map fun c => (c, decide (k.state ≠ 0)))
      = (sdlCell remap key).map fun c => (c, decide (type = .keyUp)) := by
  obtain ⟨route, hroute⟩ := sdlKeyEvent_route remap key
  rw [sdlCell, hroute, hroute]
  cases route with
  | none => rfl
  | some yx =>
    have hstate :
        decide ((if type = .keyUp then 1 else 0 : UInt8) ≠ 0) = decide (type = .keyUp) := by
      cases type <;> rfl
    simp only [keyChange, Option.map_some, Option.bind_some, hstate]

/-- The matrix after events is the store their history leaves. -/
theorem matrix_sdlKeyEvents (remap : UInt8) (keys : K → SdlKey) (es : List (HostKeyEvent K)) :
    matrix (sdlKeyEvents remap keys es) = valueAt (fun _ => true) (sdlHistory remap keys es) := by
  rw [sdlKeyEvents, matrix_changeKeyregStates, matrix_fill, keyHistory, List.filterMap_filterMap,
    sdlHistory]
  simp only [sdlKeyEvent_cell]

/-- A cell is down exactly while the last event routed to it is a press. -/
theorem cell_down_iff (remap : UInt8) (keys : K → SdlKey) (es : List (HostKeyEvent K))
    (c : KeyCell) :
    matrix (sdlKeyEvents remap keys es) c = false ↔ LastPressed remap keys es c := by
  have hpress : ∀ e : HostKeyEvent K, decide (e.type = .keyUp) = false ↔ e.type = .keyDown := by
    intro e
    cases e.type <;> decide
  rw [matrix_sdlKeyEvents, sdlHistory, valueAt_events_eq_false_iff]
  simp only [LastPressed, hpress]

/-! ### Keys that are held -/

/-- The key of a press that is the last event of its cell is held. -/
theorem LastPressed.held {remap : UInt8} {keys : K → SdlKey} {es : List (HostKeyEvent K)}
    {c : KeyCell} (h : LastPressed remap keys es c) :
    ∃ k, sdlCell remap (keys k) = some c ∧ Held es k := by
  obtain ⟨before, e, after, heq, ⟨hcell, hpress⟩, later⟩ := h
  refine ⟨e.key, hcell, before, e, after, heq, ⟨rfl, hpress⟩, ?_⟩
  rintro f hf ⟨hkey, -⟩
  exact later f hf (hkey ▸ hcell)

/-- A held key that has its cell to itself keeps it down. -/
theorem Held.lastPressed {remap : UInt8} {keys : K → SdlKey} {es : List (HostKeyEvent K)}
    {c : KeyCell} {k : K} (h : Held es k) (hcell : sdlCell remap (keys k) = some c)
    (alone : ∀ k', sdlCell remap (keys k') = some c → k' = k) : LastPressed remap keys es c := by
  unfold Held at h
  unfold LastPressed
  induction es using List.reverseRecOn with
  | nil => exact absurd h not_since_nil
  | append_singleton es e ih =>
    rw [since_concat] at h ⊢
    by_cases he : sdlCell remap (keys e.key) = some c
    · have hkey := alone e.key he
      refine .inl ⟨he, ?_⟩
      rcases h with ⟨-, hpress⟩ | ⟨hkept, -⟩
      · exact hpress
      · cases htype : e.type with
        | keyDown => rfl
        | keyUp => exact absurd ⟨hkey, htype⟩ hkept
    · refine .inr ⟨he, ih ?_⟩
      rcases h with ⟨hkey, -⟩ | ⟨-, hheld⟩
      · exact absurd (hkey ▸ hcell) he
      · exact hheld

/-- **When a matrix cell is down.** After any key events a cell is down exactly when one of the
host keys routed to it is held and no release is the last event routed to it: the first
release among several keys of a cell lifts it. A cell with one host key is down exactly while
that key is held. -/
theorem sdl_cell_down_iff (remap : UInt8) (keys : K → SdlKey) (es : List (HostKeyEvent K))
    (c : KeyCell) :
    (matrix (sdlKeyEvents remap keys es) c = false ↔
      (∃ k, sdlCell remap (keys k) = some c ∧ Held es k) ∧ LastPressed remap keys es c) ∧
    ∀ k, sdlCell remap (keys k) = some c →
      (∀ k', sdlCell remap (keys k') = some c → k' = k) →
        (matrix (sdlKeyEvents remap keys es) c = false ↔ Held es k) := by
  rw [cell_down_iff]
  constructor
  · constructor
    · intro h
      exact ⟨h.held, h⟩
    · rintro ⟨-, h⟩
      exact h
  · intro k hcell alone
    constructor
    · intro h
      obtain ⟨k', hcell', held⟩ := h.held
      exact alone k' hcell' ▸ held
    · intro h
      exact h.lastPressed hcell alone

/-! ### Two keys of one cell -/

/-- A key goes up only after it went down. -/
def ReleasesFollowPresses (es : List (HostKeyEvent K)) : Prop :=
  ∀ before e after, es = before ++ e :: after → e.type = .keyUp → Held before e.key

/-- The two Shift keys. -/
def shiftKeys : Bool → SdlKey
  | true => ⟨225, 0x400000E1⟩
  | false => ⟨229, 0x400000E5⟩

/-- Both Shift keys are pressed and the right one is released. -/
def shiftEvents : List (HostKeyEvent Bool) :=
  [⟨true, .keyDown⟩, ⟨false, .keyDown⟩, ⟨false, .keyUp⟩]

theorem releasesFollowPresses_shift : ReleasesFollowPresses shiftEvents := by
  intro before e after heq hup
  unfold shiftEvents at heq
  rcases before with _ | ⟨a, _ | ⟨b, _ | ⟨c, before⟩⟩⟩
  · cases heq
    cases hup
  · cases heq
    cases hup
  · cases heq
    exact ⟨[⟨true, .keyDown⟩], ⟨false, .keyDown⟩, [], rfl, ⟨rfl, rfl⟩, by simp⟩
  · simp at heq

/-- The cell of the Shift keys is then up while the left one is held. -/
theorem not_sdl_cell_down_shift :
    ¬ ∀ (K : Type) (remap : UInt8) (keys : K → SdlKey) (es : List (HostKeyEvent K)),
      ReleasesFollowPresses es → ∀ c : KeyCell, (∃ k, sdlCell remap (keys k) = some c) →
        (matrix (sdlKeyEvents remap keys es) c = false ↔
          ∃ k, sdlCell remap (keys k) = some c ∧ Held es k) := by
  intro all
  have hcell : sdlCell 1 (shiftKeys true) = some (7, 0) := by decide
  have held : Held shiftEvents true := ⟨[], _, _, rfl, ⟨rfl, rfl⟩, by simp⟩
  have hdown := (all Bool 1 shiftKeys shiftEvents releasesFollowPresses_shift (7, 0)
    ⟨true, hcell⟩).mpr ⟨true, hcell, held⟩
  exact absurd hdown (by decide)

end Kyacopycat
