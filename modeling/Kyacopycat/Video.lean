import Kyacopycat.Machine

/-!
The framebuffer renderers: `update_pixel` and `update_framebuffer` of both front ends.

The SDL framebuffer holds one byte for each pixel, `v_zero` or `v_one`. The Xlib
framebuffer holds one bit for each pixel, in the reversed bit order of an X bitmap
and complemented while `v_zero` is set.
-/

namespace Kyacopycat

variable {n : Nat}

/-- The byte the Xlib build stores for a byte of video RAM. -/
def xlibByte (vZero value : UInt8) : UInt8 :=
  let b : UInt8 := 0
  let b := b ||| ((value &&& 0x80) >>> 7)
  let b := b ||| ((value &&& 0x40) >>> 5)
  let b := b ||| ((value &&& 0x20) >>> 3)
  let b := b ||| ((value &&& 0x10) >>> 1)
  let b := b ||| ((value &&& 0x08) <<< 1)
  let b := b ||| ((value &&& 0x04) <<< 3)
  let b := b ||| ((value &&& 0x02) <<< 5)
  let b := b ||| ((value &&& 0x01) <<< 7)
  if vZero ≠ 0 then ~~~b else b

/-- The byte the SDL build stores for pixel `i` of a byte of video RAM. -/
def sdlPixel (vZero vOne value : UInt8) (i : Nat) : UInt8 :=
  if value &&& (0x80 >>> UInt8.ofNat i) ≠ 0 then vZero else vOne

/-- The writes `update_pixel(p, value)` makes to the framebuffer. -/
def renderByte (ui : Ui) (vZero vOne : UInt8) (fb : CArray UInt8 (dispW * dispH)) (p : Nat)
    (value : UInt8) : Option (CArray UInt8 (dispW * dispH)) :=
  match ui with
  | .sdl =>
    (List.range 8).foldlM (fun fb i => fb.store (p * 8 + i) (sdlPixel vZero vOne value i)) fb
  | .xlib => fb.store p (xlibByte vZero value)

/-- `update_pixel`. -/
def updatePixel (ui : Ui) (s : Machine n) (p : Nat) (value : UInt8) : Option (Machine n) :=
  (renderByte ui s.vZero s.vOne s.framebuffer p value).map fun fb => { s with framebuffer := fb }

/-- `update_framebuffer`: the same writes for every byte of video RAM in turn. -/
def updateFramebuffer (ui : Ui) (s : Machine n) : Option (Machine n) :=
  (List.range videoBytes).foldlM (fun s p => do
    let value ← s.mainRam.load p
    updatePixel ui s p value) s

/-- The machine when `main` enters the loop: the framebuffer has been rendered and is to be
shown. -/
def startUp (ui : Ui) (l : Loaded n) : Option (Machine n) := do
  let s ← updateFramebuffer ui l.machine
  return { s with vramTouched := 1 }

end Kyacopycat
