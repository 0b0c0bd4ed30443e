import Kyacopycat.Lib.CArray

/-!
The emulated machine: the globals of `kyacopycat.c`.

`Machine n` is the state shared by the bus handlers and the main loop, built with
a RAM of `n` bytes (`RAM_SIZE` in `config.h`; `ramSize` is the value it ships with).
The streams `printer_f`, `serial_fw` and `serial_fr` are `none` for a `NULL` pointer;
an open output stream is the bytes put into it so far and an open input stream the
bytes not read yet.
-/

namespace Kyacopycat

/-- The two front ends a build chooses from (`SDL_UI`, `XLIB_UI`). -/
inductive Ui where
  | sdl
  | xlib
  deriving DecidableEq, Repr

abbrev dispW : Nat := 672
abbrev dispH : Nat := 344

/-- `RAM_SIZE` as `config.h` defines it. -/
abbrev ramSize : Nat := 262144

/-- Bytes of RAM that are displayed: one bit for each pixel. -/
abbrev videoBytes : Nat := 28896

structure Machine (n : Nat) where
  mainRom : CArray UInt8 262144
  mainRam : CArray UInt8 n
  svram : CArray UInt8 8192
  svrom : CArray UInt8 131072
  /-- `0x840001` (w) -/
  opr : UInt8
  /-- slices since software last set bit 3 of `opr` -/
  watchdog : UInt8
  /-- `0x80000e` (w) -/
  prCont : UInt8
  /-- `0x800002` (w) -/
  kbWr : UInt8
  /-- keyboard matrix, one byte for each row, a bit cleared while its key is down -/
  kbRd : CArray UInt8 8
  /-- configuration switches -/
  dip : UInt8
  /-- `0x810009` (r) -/
  duartIpcr : UInt8
  /-- `0x81000b` (r) -/
  duartIsr : UInt8
  /-- `0x810003` (r) -/
  duartSra : UInt8
  /-- `0x810007` (r) -/
  duartRba : UInt8
  printerF : Option (List UInt8)
  serialFr : Option (List UInt8)
  serialFw : Option (List UInt8)
  translate : UInt8
  framebuffer : CArray UInt8 (dispW * dispH)
  trg : UInt16
  vramTouched : UInt8
  vZero : UInt8
  vOne : UInt8
  vBlank : UInt8

/-- The initial values of the globals. -/
def Machine.initial (n : Nat) : Machine n where
  mainRom := CArray.fill 0
  mainRam := CArray.fill 0
  svram := CArray.fill 0
  svrom := CArray.fill 0
  opr := 0
  watchdog := 0
  prCont := 0
  kbWr := 0
  kbRd := CArray.fill 0xFF
  dip := 0xFF
  duartIpcr := 0
  duartIsr := 0x19
  duartSra := 0x04
  duartRba := 0
  printerF := none
  serialFr := none
  serialFw := none
  translate := 0
  framebuffer := CArray.fill 0
  trg := 0
  vramTouched := 0
  vZero := 0
  vOne := 0
  vBlank := 0

/-- What `main` puts into the globals before it starts the CPU: the images it loads and
the settings and streams of its options. -/
structure Loaded (n : Nat) where
  mainRom : CArray UInt8 262144
  mainRam : CArray UInt8 n
  svram : CArray UInt8 8192
  svrom : CArray UInt8 131072
  dip : UInt8
  printerF : Option (List UInt8)
  serialFr : Option (List UInt8)
  serialFw : Option (List UInt8)
  translate : UInt8

/-- The globals when `main` starts the CPU. -/
def Loaded.machine {n : Nat} (l : Loaded n) : Machine n :=
  { Machine.initial n with
    mainRom := l.mainRom
    mainRam := l.mainRam
    svram := l.svram
    svrom := l.svrom
    dip := l.dip
    printerF := l.printerF
    serialFr := l.serialFr
    serialFw := l.serialFw
    translate := l.translate }

end Kyacopycat
