import Kyacopycat.Keyboard
import Kyacopycat.Video

/-!
The memory bus: `m68k_read_memory_*` and `m68k_write_memory_*`.

Every handler is a function of the machine state. An index outside its array, which
C leaves undefined, is `none`. The 16- and 32-bit handlers are sequences of byte
accesses; the reads among them are made in the order the source writes them.
-/

namespace Kyacopycat

variable {n : Nat}

/-- The registers among the arms of `m68k_read_memory_8`. -/
def readRegister (s : Machine n) (addr : UInt32) : UInt32 × Machine n :=
  if addr = 0x80000a then ((catKeyb s).toUInt32, s)
  else if addr = 0x80000e then (0x00, s)
  else if addr = 0x810003 then
    (s.duartSra.toUInt32, { s with duartSra := s.duartSra &&& 0x04 })
  else if addr = 0x810007 then (s.duartRba.toUInt32, s)
  else if addr = 0x810009 then (s.duartIpcr.toUInt32, { s with duartIpcr := 0 })
  else if addr = 0x81000b then
    (s.duartIsr.toUInt32, { s with duartIsr := s.duartIsr &&& 0x3B })
  else if addr = 0x81001b then (0x10, s)
  else if 0x870000 ≤ addr then (0xFF, s)
  else (0x00, s)

/-- `m68k_read_memory_8`. -/
def m68kReadMemory8 (s : Machine n) (addr : UInt32) : Option (UInt32 × Machine n) :=
  -- rom/svram area (two msb = 00)
  if addr &&& 0xE40000 = 0 then (s.mainRom.load addr.toNat).map fun b => (b.toUInt32, s)
  else if addr &&& 0xE70001 = 0x40000 then
    (s.svram.load ((addr >>> 1) &&& 0x1FFF).toNat).map fun b => (b.toUInt32, s)
  else if addr &&& 0xE40001 = 0x200001 then
    (s.svrom.load ((addr >>> 1) &&& 0x1FFFF).toNat).map fun b => (b.toUInt32, s)
  else if addr &&& 0xC00000 = 0 then some (0x00, s)
  -- main ram area (two msb = 01)
  else if 0x400000 ≤ addr.toNat ∧ addr.toNat < 0x400000 + n then
    (s.mainRam.load (addr.toNat &&& (n - 1))).map fun b => (b.toUInt32, s)
  else if addr &&& 0xC00000 = 0x400000 then some (0x00, s)
  -- the rest
  else some (readRegister s addr)

/-- `m68k_read_memory_16`. -/
def m68kReadMemory16 (s : Machine n) (address : UInt32) : Option (UInt32 × Machine n) := do
  let (b1, s) ← m68kReadMemory8 s (address + 1)
  let (b0, s) ← m68kReadMemory8 s address
  return (b1 ||| (b0 <<< 8), s)

/-- `m68k_read_memory_32`. -/
def m68kReadMemory32 (s : Machine n) (address : UInt32) : Option (UInt32 × Machine n) := do
  let (b3, s) ← m68kReadMemory8 s (address + 3)
  let (b2, s) ← m68kReadMemory8 s (address + 2)
  let (b1, s) ← m68kReadMemory8 s (address + 1)
  let (b0, s) ← m68kReadMemory8 s address
  return (b3 ||| (b2 <<< 8) ||| (b1 <<< 16) ||| (b0 <<< 24), s)

/-- The main RAM arm of `m68k_write_memory_8`; the first `videoBytes` bytes are displayed. -/
def writeMainRam (ui : Ui) (s : Machine n) (addr : UInt32) (value : UInt8) :
    Option (Machine n) := do
  let mainRam ← s.mainRam.store (addr.toNat &&& (n - 1)) value
  let s := { s with mainRam }
  if addr < 0x4070E0 then
    updatePixel ui { s with vramTouched := 1 } (addr.toNat &&& (n - 1)) value
  else return s

/-- The video control arm of `m68k_write_memory_8`. -/
def writeOpr (s : Machine n) (value : UInt8) : Machine n :=
  let s := { s with opr := value }
  let s :=
    if s.opr &&& 0x04 = 0 then { s with vBlank := 1 }
    else if s.opr &&& 0x10 ≠ 0 then { s with vBlank := 0, vZero := 0xFF, vOne := 0 }
    else { s with vBlank := 0, vZero := 0, vOne := 0xFF }
  if value &&& 0x8 ≠ 0 then { s with watchdog := 0 } else s

/-- The registers among the arms of `m68k_write_memory_8`. -/
def writeRegister (s : Machine n) (addr : UInt32) (value : UInt8) : Machine n :=
  if addr = 0x840001 then writeOpr s value
  else if addr = 0x80000e then { s with prCont := value }
  else if addr = 0x800002 then { s with kbWr := value }
  else if addr = 0x800004 ∧ s.printerF ≠ none then
    { s with printerF := s.printerF.map (· ++ [value]) }
  else if addr = 0x810007 ∧ s.serialFw ≠ none then
    let value := if s.translate ≠ 0 ∧ value = 0x0D then 0x0A else value
    { s with serialFw := s.serialFw.map (· ++ [value]) }
  -- `0x81000b`, everything from `0x870000` on, and what is not implemented
  else s

/-- `m68k_write_memory_8`. -/
def m68kWriteMemory8 (ui : Ui) (s : Machine n) (addr value : UInt32) : Option (Machine n) :=
  let value := (value &&& 0xFF).toUInt8
  if 0x400000 ≤ addr.toNat ∧ addr.toNat < 0x400000 + n then writeMainRam ui s addr value
  else if addr &&& 0xE70001 = 0x40000 then do
    let svram ← s.svram.store ((addr >>> 1) &&& 0x1FFF).toNat value
    return { s with svram }
  else some (writeRegister s addr value)

/-- `m68k_write_memory_16`. -/
def m68kWriteMemory16 (ui : Ui) (s : Machine n) (address value : UInt32) : Option (Machine n) := do
  let s ← m68kWriteMemory8 ui s address (value >>> 8)
  m68kWriteMemory8 ui s (address + 1) value

/-- `m68k_write_memory_32`. -/
def m68kWriteMemory32 (ui : Ui) (s : Machine n) (address value : UInt32) : Option (Machine n) := do
  let s ← m68kWriteMemory8 ui s address (value >>> 24)
  let s ← m68kWriteMemory8 ui s (address + 1) (value >>> 16)
  let s ← m68kWriteMemory8 ui s (address + 2) (value >>> 8)
  m68kWriteMemory8 ui s (address + 3) value

/-! ### Accesses of the CPU core -/

/-- A base address as the CPU core passes it to the bus: 24 bits. -/
structure BusAddress where
  addr : UInt32
  lt : addr.toNat < 0x1000000

/-- `ADDRESS_68K`, with the address mask of the 68000. -/
def address68k (address : UInt32) : BusAddress where
  addr := address &&& 0x00ffffff
  lt := by
    rw [UInt32.toNat_and]
    exact Nat.lt_of_le_of_lt Nat.and_le_right (by decide)

instance : Inhabited BusAddress := ⟨address68k 0⟩

/-- The widths of an access. -/
inductive Width where
  | byte
  | word
  | long
  deriving DecidableEq, Repr

/-- Bytes an access of the width touches. -/
def Width.lanes : Width → Nat
  | .byte => 1
  | .word => 2
  | .long => 4

/-- The read handler of each width. -/
def m68kReadMemory (w : Width) (s : Machine n) (address : UInt32) : Option (UInt32 × Machine n) :=
  match w with
  | .byte => m68kReadMemory8 s address
  | .word => m68kReadMemory16 s address
  | .long => m68kReadMemory32 s address

/-- The write handler of each width. -/
def m68kWriteMemory (ui : Ui) (w : Width) (s : Machine n) (address value : UInt32) :
    Option (Machine n) :=
  match w with
  | .byte => m68kWriteMemory8 ui s address value
  | .word => m68kWriteMemory16 ui s address value
  | .long => m68kWriteMemory32 ui s address value

/-- A write of the CPU core to the bus. -/
structure BusWrite where
  width : Width
  base : BusAddress
  value : UInt32

/-- The state after a write. -/
def BusWrite.step (ui : Ui) (s : Machine n) (b : BusWrite) : Option (Machine n) :=
  m68kWriteMemory ui b.width s b.base.addr b.value

/-- An access of the CPU core to the bus. -/
inductive Access where
  | read (w : Width) (a : BusAddress)
  | write (b : BusWrite)

/-- The state after an access. -/
def Access.step (ui : Ui) (s : Machine n) : Access → Option (Machine n)
  | .read w a => (m68kReadMemory w s a.addr).map Prod.snd
  | .write b => b.step ui s

/-- Byte `k` of a big-endian value of the width. -/
def laneByte (w : Width) (value : UInt32) (k : Nat) : UInt8 :=
  (value >>> UInt32.ofNat (8 * (w.lanes - 1 - k))).toUInt8

end Kyacopycat
