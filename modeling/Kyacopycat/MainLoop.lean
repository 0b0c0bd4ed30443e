import Kyacopycat.Bus
import Kyacopycat.Keyboard.Xlib
import Kyacopycat.Lib.Run

/-!
The loop of `main`.

An iteration runs the CPU for one slice and then, at the end of the slice, makes its own
steps in a fixed order: the timer tick, the display step, one event of the window system
and the serial input step. What the guest does in a slice is the list of its bus accesses.
`sliceEnd` is the part after the slice and `iterate` a whole iteration of the Xlib build.
-/

namespace Kyacopycat

variable {n : Nat}

/-! ### Timer -/

/-- The counters, and the condition of the 6.5 ms timer interrupt. -/
def tick (s : Machine n) : Machine n :=
  let s := { s with watchdog := s.watchdog + 1, trg := s.trg + 1 }
  { s with
    duartIsr := s.duartIsr ||| 0x80
    duartIpcr := ((0x40 : UInt16) ||| ((s.trg % 2) <<< 2)).toUInt8 }

/-- The watchdog has been triggered. -/
def watchdogTriggered (s : Machine n) : Bool := s.watchdog > 64

/-! ### Display -/

/-- What the display step asks of the window system. -/
inductive Drawing where
  /-- show the framebuffer -/
  | update (framebuffer : CArray UInt8 (dispW * dispH))
  | clear

/-- The display step, with `FASTER_VIDEO`. -/
def displayStep (s : Machine n) : Option Drawing × Machine n :=
  if s.vBlank = 0 then
    if s.vramTouched ≠ 0 then (some (.update s.framebuffer), { s with vramTouched := 0 })
    else (none, s)
  else if s.vBlank = 1 then (some .clear, { s with vBlank := s.vBlank + 1 })
  else (none, s)

/-! ### Events -/

/-- What handling an event of the window system comes to: the call of
`change_keyreg_state` it makes, and whether it ends the loop. -/
structure EventEffect where
  key : Option KeyChange
  quit : Bool

/-- The events of the Xlib front end; `close` is a client message with `WM_DELETE_WINDOW`. -/
inductive XEvent where
  | key (e : XKeyEvent)
  | close
  | other
  deriving DecidableEq, Repr

/-- The event step of the Xlib build; `none` when no event is pending. -/
def xlibEvent (remap : UInt8) : Option XEvent → EventEffect
  | some (.key e) => ⟨xlibKeyEvent remap e, false⟩
  | some .close => ⟨none, true⟩
  | some .other => ⟨none, false⟩
  | none => ⟨none, false⟩

/-- The machine after an event. -/
def EventEffect.apply (e : EventEffect) (s : Machine n) : Machine n :=
  match e.key with
  | some k => { s with kbRd := k.apply s.kbRd }
  | none => s

/-! ### Serial input -/

/-- The serial input step; `readable` is what `poll` reports of the stream. -/
def serialStep (s : Machine n) (readable : Bool) : Machine n :=
  match s.serialFr with
  | none => s
  | some input =>
    if s.duartSra &&& 1 ≠ 0 then s
    else if readable then
      match input with
      | [] => { s with serialFr := none }
      | c :: rest =>
        let c := if s.translate ≠ 0 ∧ c = 0x0A then 0x0D else c
        { s with
          serialFr := some rest
          duartRba := c
          duartSra := s.duartSra ||| 0x01
          duartIsr := s.duartIsr ||| 0x02 }
    else s

/-! ### What the steps leave alone -/

theorem displayStep_frame (s : Machine n) :
    ∃ vBlank vramTouched, (displayStep s).2 = { s with vBlank, vramTouched } := by
  unfold displayStep
  repeat' split
  all_goals exact ⟨_, _, rfl⟩

theorem EventEffect.apply_frame (e : EventEffect) (s : Machine n) :
    ∃ kbRd, e.apply s = { s with kbRd } := by
  unfold EventEffect.apply
  split <;> exact ⟨_, rfl⟩

theorem serialStep_frame (s : Machine n) (readable : Bool) :
    ∃ serialFr duartRba duartSra duartIsr,
      serialStep s readable = { s with serialFr, duartRba, duartSra, duartIsr } := by
  unfold serialStep
  repeat' split
  all_goals exact ⟨_, _, _, _, rfl⟩

/-! ### Iterations -/

/-- The steps after a slice, and what is drawn. -/
def sliceEnd (s : Machine n) (event : EventEffect) (readable : Bool) :
    Option Drawing × Machine n :=
  let s := tick s
  let (drawing, s) := displayStep s
  let s := event.apply s
  (drawing, serialStep s readable)

@[simp] theorem sliceEnd_snd (s : Machine n) (event : EventEffect) (readable : Bool) :
    (sliceEnd s event readable).2
      = serialStep (event.apply (displayStep (tick s)).2) readable :=
  rfl

/-- What an iteration meets: the accesses of the guest, the pending event and the serial
stream. -/
structure Slice where
  accesses : List Access
  event : Option XEvent
  readable : Bool

/-- The bits of a framebuffer that `XCreateBitmapFromData` puts into a bitmap. -/
def bitmapFromData (fb : CArray UInt8 (dispW * dispH)) : CArray UInt8 videoBytes :=
  fun p => fb ⟨p, Nat.lt_of_lt_of_le p.isLt (by decide)⟩

/-- The window without a picture: every pixel in the background colour. -/
def blankWindow : CArray UInt8 videoBytes := CArray.fill 0

/-- The visible bits after drawing. -/
def windowAfter (window : CArray UInt8 videoBytes) : Option Drawing → CArray UInt8 videoBytes
  | some (.update fb) => bitmapFromData fb
  | some .clear => blankWindow
  | none => window

/-- The emulator in its Xlib build: the machine, the visible bits of the window, and `run`. -/
structure Emulator (n : Nat) where
  machine : Machine n
  window : CArray UInt8 videoBytes
  run : Bool

/-- One iteration of the main loop; there is none once `run` is zero. -/
def iterate (remap : UInt8) (e : Emulator n) (x : Slice) : Option (Emulator n) :=
  if e.run then do
    let s ← Run.run (Access.step .xlib) e.machine x.accesses
    let event := xlibEvent remap x.event
    let (drawing, s') := sliceEnd s event x.readable
    return {
      machine := s'
      window := windowAfter e.window drawing
      run := !watchdogTriggered (tick s) && !event.quit }
  else none

/-- The emulator when it enters the loop, with nothing in the window yet. -/
def enterLoop (l : Loaded n) : Option (Emulator n) := do
  let machine ← startUp .xlib l
  return { machine, window := blankWindow, run := true }

end Kyacopycat
