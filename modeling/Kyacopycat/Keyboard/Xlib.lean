import Kyacopycat.Keyboard.Matrix

/-!
The keyboard of the Xlib front end: `xkeymess.h` and the key events of the main loop.

A key event is routed to a cell of the matrix by the character it types when that is a
letter, and by its keycode otherwise. The route is chosen afresh for the press and for the
release of a key, from the character each of them types.

* `matrix_xlibKeyEvents`: the matrix after events is the store their history leaves.
* `keys_up_iff`: when the matrix is all up again after events.
-/

namespace Kyacopycat

open LastWrite

/-! ### The tables -/

/-- The key of a letter, as row and column. -/
def xlibCharKey (sym : UInt8) : Option (UInt8 × UInt8) :=
  match sym with
  | 0x4E => some (0, 0) -- N
  | 0x4D => some (0, 1) -- M
  | 0x4B => some (0, 2) -- K
  | 0x4A => some (0, 3) -- J
  | 0x59 => some (0, 4) -- Y
  | 0x54 => some (0, 5) -- T
  | 0x42 => some (1, 0) -- B
  | 0x4C => some (1, 2) -- L
  | 0x48 => some (1, 3) -- H
  | 0x55 => some (1, 4) -- U
  | 0x52 => some (1, 5) -- R
  | 0x56 => some (2, 0) -- V
  | 0x47 => some (2, 3) -- G
  | 0x49 => some (2, 4) -- I
  | 0x43 => some (3, 0) -- C
  | 0x46 => some (3, 3) -- F
  | 0x4F => some (3, 4) -- O
  | 0x45 => some (3, 5) -- E
  | 0x58 => some (4, 0) -- X
  | 0x44 => some (4, 3) -- D
  | 0x50 => some (4, 4) -- P
  | 0x57 => some (4, 5) -- W
  | 0x5A => some (5, 0) -- Z
  | 0x53 => some (5, 3) -- S
  | 0x51 => some (5, 5) -- Q
  | 0x41 => some (6, 3) -- A
  | _ => none

/-- `XK_VoidSymbol`. -/
abbrev xkVoidSymbol : Int32 := 0xffffff

/-- The key of a keycode, as row and column. -/
def xlibCodeKey (scancode : Int) : Option (UInt8 × UInt8) :=
  match scancode with
  | 57 => some (0, 0)
  | 58 => some (0, 1)
  | 45 => some (0, 2)
  | 44 => some (0, 3)
  | 29 => some (0, 4)
  | 28 => some (0, 5)
  | 56 => some (1, 0)
  | 46 => some (1, 2)
  | 43 => some (1, 3)
  | 30 => some (1, 4)
  | 27 => some (1, 5)
  | 55 => some (2, 0)
  | 42 => some (2, 3)
  | 31 => some (2, 4)
  | 54 => some (3, 0)
  | 41 => some (3, 3)
  | 32 => some (3, 4)
  | 26 => some (3, 5)
  | 53 => some (4, 0)
  | 40 => some (4, 3)
  | 33 => some (4, 4)
  | 25 => some (4, 5)
  | 52 => some (5, 0)
  | 39 => some (5, 3)
  | 24 => some (5, 5)
  | 38 => some (6, 3)
  | 10 | 87 => some (5, 7)
  | 11 | 88 => some (4, 7)
  | 12 | 89 => some (2, 7)
  | 13 | 83 => some (1, 7)
  | 14 | 84 => some (0, 7)
  | 15 | 85 => some (0, 6)
  | 16 | 79 => some (1, 6)
  | 17 | 80 => some (2, 6)
  | 18 | 81 => some (3, 6)
  | 19 | 90 => some (4, 6)
  | 59 => some (1, 1)
  | 60 | 91 => some (2, 1)
  | 48 => some (2, 2)
  | 51 => some (3, 2)
  | 34 | 99 => some (5, 4)
  | 20 | 82 => some (5, 6)
  | 61 | 112 => some (6, 2)
  | 35 => some (6, 4)
  | 21 => some (6, 6)
  | 49 => some (7, 7)
  | 64 => some (3, 1) -- left use front
  | 113 | 108 => some (4, 1) -- right use front
  | 65 => some (5, 1)
  | 36 => some (5, 2)
  | 37 => some (6, 1) -- left leap
  | 0xff09 => some (6, 5) -- `XK_Tab`, which is a keysym and no keycode
  | 50 | 62 => some (7, 0)
  | 105 => some (7, 1) -- right leap
  | 115 => some (7, 2)
  | 66 => some (7, 3)
  | 22 => some (7, 4)
  | 110 => some (7, 6)
  | _ => none

/-- The call the tables make for a key, if they have it. -/
def keyChange (key : Option (UInt8 × UInt8)) (state : UInt8) : Option KeyChange :=
  key.map fun (y, x) => ⟨y, x, state⟩

/-- `handle_xlib_char`, as the call of `change_keyreg_state` it makes. -/
def handleXlibChar (sym state : UInt8) : Option KeyChange :=
  keyChange (xlibCharKey (sym &&& 0x5F)) state

/-- `handle_xlib_code`, as the call of `change_keyreg_state` it makes. -/
def handleXlibCode (scancode : Int32) (state : UInt8) : Option KeyChange :=
  if scancode < 1 ∨ scancode > xkVoidSymbol then none
  else keyChange (xlibCodeKey scancode.toInt) state

/-! ### Events -/

/-- The types of a key event. -/
inductive KeyEventType where
  | keyPress
  | keyRelease
  deriving DecidableEq, Repr

/-- A key event: its type and keycode, and the first character `XLookupString` yields. -/
structure XKeyEvent where
  type : KeyEventType
  keycode : UInt32
  text0 : UInt8
  deriving DecidableEq, Repr

/-- The conversion of a `char` to `unsigned int`, by its sign. -/
def charToUnsigned (c : UInt8) : UInt32 := c.toInt8.toInt32.toUInt32

/-- The call of `change_keyreg_state` a key event of the main loop makes, if any. -/
def xlibKeyEvent (remap : UInt8) (e : XKeyEvent) : Option KeyChange :=
  let sym := charToUnsigned e.text0
  let state : UInt8 := if e.type = .keyRelease then 1 else 0
  if remap ≠ 0 ∧ ((sym ≤ 0x5A ∧ sym ≥ 0x41) ∨ (sym ≤ 0x7A ∧ sym ≥ 0x61)) then
    handleXlibChar sym.toUInt8 state
  else handleXlibCode e.keycode.toInt32 state

/-- The matrix bytes after key events. -/
def xlibKeyEvents (remap : UInt8) (kbRd : CArray UInt8 8) (es : List XKeyEvent) :
    CArray UInt8 8 :=
  (es.filterMap (xlibKeyEvent remap)).foldl KeyChange.apply kbRd

/-- The cell of the matrix a key event is routed to. -/
def xlibCell (remap : UInt8) (e : XKeyEvent) : Option KeyCell :=
  (xlibKeyEvent remap e).bind fun k => keyCell k.y k.x

/-! ### What events leave in the matrix -/

/-- The writes that events make to the cells, oldest first: a release sets the flag of the
cell it is routed to, a press clears it. -/
def xlibHistory (remap : UInt8) (es : List XKeyEvent) : List (KeyCell × Bool) :=
  es.filterMap fun e => (xlibCell remap e).map fun c => (c, decide (e.type = .keyRelease))

theorem keyChange_state {key : Option (UInt8 × UInt8)} {state : UInt8} {k : KeyChange}
    (h : keyChange key state = some k) : k.state = state := by
  obtain ⟨_, -, rfl⟩ := Option.map_eq_some_iff.mp h
  rfl

theorem xlibKeyEvent_state {remap : UInt8} {e : XKeyEvent} {k : KeyChange}
    (h : xlibKeyEvent remap e = some k) :
    decide (k.state ≠ 0) = decide (e.type = .keyRelease) := by
  have hstate : k.state = if e.type = .keyRelease then 1 else 0 := by
    unfold xlibKeyEvent at h
    dsimp only at h
    split at h
    · exact keyChange_state h
    · unfold handleXlibCode at h
      split at h
      · cases h
      · exact keyChange_state h
  rw [hstate]
  cases e.type <;> rfl

theorem keyHistory_xlibKeyEvent (remap : UInt8) (es : List XKeyEvent) :
    keyHistory (es.filterMap (xlibKeyEvent remap)) = xlibHistory remap es := by
  rw [keyHistory, xlibHistory, List.filterMap_filterMap]
  refine congrArg (es.filterMap ·) (funext fun e => ?_)
  rw [xlibCell]
  cases h : xlibKeyEvent remap e with
  | none => rfl
  | some k => simp only [Option.bind_some, xlibKeyEvent_state h]

/-- The matrix after events is the store their history leaves. -/
theorem matrix_xlibKeyEvents (remap : UInt8) (kbRd : CArray UInt8 8) (es : List XKeyEvent) :
    matrix (xlibKeyEvents remap kbRd es) = valueAt (matrix kbRd) (xlibHistory remap es) := by
  rw [xlibKeyEvents, matrix_changeKeyregStates, keyHistory_xlibKeyEvent]

/-! ### Stuck keys -/

/-- Every press among the events satisfies `P` with the events that follow it. -/
def EveryPress (P : XKeyEvent → List XKeyEvent → Prop) : List XKeyEvent → Prop
  | [] => True
  | e :: es => (e.type = .keyPress → P e es) ∧ EveryPress P es

theorem everyPress_iff {P : XKeyEvent → List XKeyEvent → Prop} {es : List XKeyEvent} :
    EveryPress P es ↔
      ∀ before e after, es = before ++ e :: after → e.type = .keyPress → P e after := by
  induction es with
  | nil => simp [EveryPress]
  | cons e es ih =>
    rw [EveryPress, ih]
    constructor
    · rintro ⟨here, later⟩ before f after heq
      cases before with
      | nil =>
        obtain ⟨rfl, rfl⟩ := List.cons.inj heq
        exact here
      | cons g before =>
        exact later before f after (List.cons.inj heq).2
    · intro all
      refine ⟨all [] e es rfl, fun before f after heq => ?_⟩
      exact all (e :: before) f after (by rw [heq]; rfl)

/-- Every keycode pressed is released afterwards. -/
def KeysReleased (es : List XKeyEvent) : Prop :=
  EveryPress (fun e later => ∃ r ∈ later, r.type = .keyRelease ∧ r.keycode = e.keycode) es

/-- Every press that is routed to a cell is followed by a release routed to that cell. -/
def CellsReleased (remap : UInt8) (es : List XKeyEvent) : Prop :=
  EveryPress (fun e later => ∀ c, xlibCell remap e = some c →
    ∃ r ∈ later, r.type = .keyRelease ∧ xlibCell remap r = some c) es

/-- The splits of a history come from splits of the events. -/
theorem xlibHistory_eq_append_cons {remap : UInt8} {es : List XKeyEvent}
    {hbefore hafter : List (KeyCell × Bool)} {c : KeyCell} {up : Bool}
    (h : xlibHistory remap es = hbefore ++ (c, up) :: hafter) :
    ∃ before e after, es = before ++ e :: after ∧ xlibCell remap e = some c ∧
      up = decide (e.type = .keyRelease) ∧ hafter = xlibHistory remap after := by
  obtain ⟨before, rest, rfl, -, hrest⟩ := List.filterMap_eq_append_iff.mp h
  obtain ⟨skipped, e, after, rfl, -, he, hafter⟩ := List.filterMap_eq_cons_iff.mp hrest
  obtain ⟨d, hd, heq⟩ := Option.map_eq_some_iff.mp he
  cases heq
  exact ⟨before ++ skipped, e, after, by simp, hd, rfl, hafter.symm⟩

theorem mem_xlibHistory {remap : UInt8} {es : List XKeyEvent} {c : KeyCell} {up : Bool} :
    (c, up) ∈ xlibHistory remap es ↔
      ∃ e ∈ es, xlibCell remap e = some c ∧ up = decide (e.type = .keyRelease) := by
  simp only [xlibHistory, List.mem_filterMap, Option.map_eq_some_iff, Prod.mk.injEq]
  constructor
  · rintro ⟨e, he, d, hd, rfl, rfl⟩
    exact ⟨e, he, hd, rfl⟩
  · rintro ⟨e, he, hd, rfl⟩
    exact ⟨e, he, c, hd, rfl, rfl⟩

/-- **When no key is stuck.** After any key events from a matrix that is all up, it is all
up again exactly when every press that was routed to a cell was followed by a release
routed to the same cell. -/
theorem keys_up_iff (remap : UInt8) (es : List XKeyEvent) :
    xlibKeyEvents remap (CArray.fill 0xFF) es = CArray.fill 0xFF ↔ CellsReleased remap es := by
  rw [matrix_all_true_iff, matrix_xlibKeyEvents, matrix_fill, valueAt_true_iff, CellsReleased,
    everyPress_iff]
  constructor
  · rintro all before e after rfl hpress c hc
    have hdown : decide (e.type = .keyRelease) = false := by simp [hpress]
    have hsplit : xlibHistory remap (before ++ e :: after)
        = xlibHistory remap before ++ (c, false) :: xlibHistory remap after := by
      simp [xlibHistory, hc, hdown]
    obtain ⟨r, hr, hcell, htype⟩ := mem_xlibHistory.mp (all _ _ _ hsplit)
    exact ⟨r, hr, by simpa using htype.symm, hcell⟩
  · intro released hbefore c hafter hsplit
    obtain ⟨before, e, after, heq, hc, htype, rfl⟩ := xlibHistory_eq_append_cons hsplit
    have hpress : e.type = .keyPress := by
      cases h : e.type with
      | keyPress => rfl
      | keyRelease => simp [h] at htype
    obtain ⟨r, hr, hrelease, hcell⟩ := released before e after heq hpress c hc
    exact mem_xlibHistory.mpr ⟨r, hr, hcell, by simp [hrelease]⟩

/-- With a French layout the key of keycode 24 types `a`. Pressed alone it is routed by
that letter; released while Control is held it types `0x01` and is routed by its keycode,
to another cell. The letter stays down. -/
theorem not_keys_up_control :
    ¬ ∀ es : List XKeyEvent, KeysReleased es →
      xlibKeyEvents 1 (CArray.fill 0xFF) es = CArray.fill 0xFF := by
  intro all
  have h := all [⟨.keyPress, 24, 0x61⟩, ⟨.keyPress, 37, 0⟩, ⟨.keyRelease, 24, 0x01⟩,
    ⟨.keyRelease, 37, 0⟩] (by simp [KeysReleased, EveryPress])
  exact absurd (congrFun h 6) (by decide)

end Kyacopycat
