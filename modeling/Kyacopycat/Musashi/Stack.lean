import Kyacopycat.Musashi.Operands
import Kyacopycat.Musashi.Status

/-!
The stack of the core: pushes, pulls and the exception frame.

* `Core.ram_pushed`, `Core.pull_ram`: a push stores a number below the stack pointer, a pull reads
  the number above it.
* `Core.ram_framed`: the frame of an exception is one number of six bytes.
-/

namespace Kyacopycat

open BigEndian

variable {n : Nat}

/-- A pull of a value of `bytes` bytes. -/
def Core.pull (w : Width) (bytes : UInt32) (s : Core n) : Option (UInt32 × Core n) :=
  let sp := s.cpu.regSp + bytes
  Core.read w { s with cpu := { s.cpu with dar := s.cpu.dar.set 15 sp } } (sp - bytes)

/-- `m68ki_pull_16`. -/
def m68kiPull16 (s : Core n) : Option (UInt32 × Core n) := s.pull .word 2

/-- `m68ki_pull_32`. -/
def m68kiPull32 (s : Core n) : Option (UInt32 × Core n) := s.pull .long 4

/-! ### Addresses -/

theorem InRamBelow.mono {a : UInt32} {j k : Nat} (h : InRamBelow n a k) (hj : j ≤ k) :
    InRamBelow n a j := by
  obtain ⟨lo, hi⟩ := h
  exact ⟨by omega, hi⟩

/-- The bytes right below an address, as a span. -/
theorem InRamBelow.span {a b : UInt32} {k : Nat} (h : InRamBelow n a k) (hn : n ≤ 0x400000)
    (hb : b.toNat = k) : InRamSpan n (a - b) k ∧ ramPlace (a - b) = ramPlace a - k := by
  obtain ⟨lo, hi⟩ := h
  have hlt := a.toNat_lt
  have hsub : (a - b).toNat = a.toNat - k := by
    rw [UInt32.toNat_sub, hb]
    omega
  unfold InRamSpan ramPlace
  rw [hsub]
  omega

/-- A part of the bytes below an address. -/
theorem InRamBelow.part {a b : UInt32} {j k : Nat} (h : InRamBelow n a (j + k))
    (hn : n ≤ 0x400000) (hb : b.toNat = j) : InRamBelow n (a - b) k := by
  obtain ⟨lo, hi⟩ := h
  have hlt := a.toNat_lt
  have hsub : (a - b).toNat = a.toNat - j := by
    rw [UInt32.toNat_sub, hb]
    omega
  unfold InRamBelow
  rw [hsub]
  omega

/-! ### Pushes -/

/-- The core after a push. -/
def Core.pushed (ui : Ui) (w : Width) (bytes : UInt32) (s : Core n) (value : UInt32) : Core n :=
  { s with
    cpu := { s.cpu with dar := s.cpu.dar.set 15 (s.cpu.regSp - bytes) }
    machine := s.machine.wrote ui w (s.cpu.regSp - bytes) value }

section Push

variable {ui : Ui} {w : Width} {bytes value : UInt32} {s : Core n}

theorem Core.push_eq (size : SoundRamSize n) (mask : s.cpu.addressMask = 0x00ffffff) :
    s.push ui w bytes value = some (s.pushed ui w bytes value) :=
  Core.write_eq size ui (by exact mask) w _ value

@[simp] theorem Core.pushed_a7 : (s.pushed ui w bytes value).cpu.dar 15 = s.cpu.dar 15 - bytes := by
  simp [Core.pushed]

theorem Core.pushed_register {r : Fin 16} (h : r ≠ 15) :
    (s.pushed ui w bytes value).cpu.dar r = s.cpu.dar r :=
  (CArray.set_apply _ _ _ r).trans (if_neg fun h' => h (Fin.ext h'))

/-- A push stores its value right below the stack pointer. -/
theorem Core.ram_pushed (hn : n ≤ 0x400000) (hb : bytes.toNat = w.lanes)
    (room : InRamBelow n (s.cpu.dar 15) w.lanes) :
    (s.pushed ui w bytes value).machine.ram
      = poke s.machine.ram (ramPlace (s.cpu.dar 15) - w.lanes) w.lanes value.toNat := by
  obtain ⟨span, place⟩ := room.span hn hb
  rw [← place]
  exact Machine.ram_wrote ui s.machine value span

end Push

/-! ### Pulls -/

/-- A pull reads the number above the stack pointer. -/
theorem Core.pull_ram (size : SoundRamSize n) {s : Core n} (mask : s.cpu.addressMask = 0x00ffffff)
    {w : Width} {bytes : UInt32} (h : InRamSpan n (s.cpu.dar 15) w.lanes) :
    s.pull w bytes
      = some (UInt32.ofNat (value s.machine.ram (ramPlace (s.cpu.dar 15)) w.lanes),
          s.setReg 15 (s.cpu.dar 15 + bytes)) := by
  have haddress : s.cpu.dar 15 + bytes - bytes = s.cpu.dar 15 := UInt32.add_sub_cancel _ _
  rw [Core.pull]
  dsimp only
  rw [haddress]
  exact Core.read_ram size (s := s.setReg 15 (s.cpu.dar 15 + bytes)) mask w h

/-! ### The exception frame -/

/-- The core after the frame of an exception has been stacked. -/
def Core.framed (ui : Ui) (s : Core n) (pc sr : UInt32) : Core n :=
  (s.pushed ui .long 4 pc).pushed ui .word 2 sr

section Frame

variable {ui : Ui} {s : Core n} {pc sr vector : UInt32}

theorem m68kiStackFrame0000_eq (size : SoundRamSize n) (mask : s.cpu.addressMask = 0x00ffffff)
    (type : s.cpu.cpuType = 1) :
    m68kiStackFrame0000 ui s pc sr vector = some (s.framed ui pc sr) := by
  rw [m68kiStackFrame0000, if_pos type, Option.bind_eq_bind, Option.bind_some, m68kiPush32,
    Core.push_eq size mask, Option.bind_some, m68kiPush16]
  exact Core.push_eq size mask

@[simp] theorem Core.framed_a7 : (s.framed ui pc sr).cpu.dar 15 = s.cpu.dar 15 - 6 := by
  rw [Core.framed, Core.pushed_a7, Core.pushed_a7]
  grind

theorem Core.framed_register {r : Fin 16} (h : r ≠ 15) :
    (s.framed ui pc sr).cpu.dar r = s.cpu.dar r := by
  rw [Core.framed, Core.pushed_register h, Core.pushed_register h]

/-- The number that a frame holds. -/
def frameValue (pc sr : UInt32) : Nat := sr.toNat * 256 ^ 4 + pc.toNat

/-- The frame of an exception is one number of six bytes. -/
theorem Core.ram_framed (hn : n ≤ 0x400000) (room : InRamBelow n (s.cpu.dar 15) 6) :
    (s.framed ui pc sr).machine.ram
      = poke s.machine.ram (ramPlace (s.cpu.dar 15) - 6) 6 (frameValue pc sr) := by
  have hlong : InRamBelow n (s.cpu.dar 15) 4 := room.mono (by decide)
  have hword : InRamBelow n ((s.pushed ui .long 4 pc).cpu.dar 15) 2 := by
    rw [Core.pushed_a7]
    exact room.part (j := 4) hn rfl
  obtain ⟨-, place⟩ := hlong.span (b := 4) hn rfl
  have hplace : ramPlace (s.cpu.dar 15) - 6 + 2 = ramPlace (s.cpu.dar 15) - 4 := by
    have hle := room.le
    omega
  have hpc : pc.toNat < 256 ^ 4 := pc.toNat_lt
  have hdiv : frameValue pc sr / 256 ^ 4 = sr.toNat := by
    rw [frameValue, Nat.add_comm, Nat.add_mul_div_right _ _ (by decide),
      Nat.div_eq_of_lt hpc, Nat.zero_add]
  have hmod : frameValue pc sr % 256 ^ 4 = pc.toNat := by
    rw [frameValue, Nat.mul_add_mod_self_right, Nat.mod_eq_of_lt hpc]
  rw [Core.framed, Core.ram_pushed hn rfl hword, Core.ram_pushed hn rfl hlong, Core.pushed_a7,
    place]
  have happend := poke_append s.machine.ram (ramPlace (s.cpu.dar 15) - 6) 2 4 (frameValue pc sr)
  rw [hdiv, hplace, ← poke_mod _ _ 4, hmod] at happend
  rw [← happend]
  congr 1

end Frame

end Kyacopycat
