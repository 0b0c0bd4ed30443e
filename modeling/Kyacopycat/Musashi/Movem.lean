import Kyacopycat.Lib.Block
import Kyacopycat.Musashi.Fetch

/-!
The transfers of several registers: `movem`.

A register list is a word with a bit for each register, in the order of `REG_DA`, or in the
reverse order for `-(Ay)`. `Block.upward` of a block in the RAM are the registers it holds.

* `savedBlock`: the block that a loop of the handlers leaves, and the other one reads.
* `movem_round_trip`: registers that were saved in a block in any mode come back from it in any
  mode, whatever happens between that leaves the block alone.
-/

namespace Kyacopycat

open BigEndian

variable {n : Nat}

/-! ### The handlers -/

/-- `register_list & (1 << i)`. -/
def inList (registerList : UInt32) (i : Fin 16) : Bool :=
  registerList &&& ((1 : UInt32) <<< UInt32.ofNat i.val) ≠ 0

/-- The variables of the loop: the address, the registers so far and the core. -/
structure Transfer (n : Nat) where
  ea : UInt32
  count : Nat
  core : Core n

/-- A turn of the loop for a register of the list. -/
def Transfer.turn (body : Fin 16 → UInt32 → Core n → Option (UInt32 × Core n)) (st : Transfer n)
    (i : Fin 16) : Option (Transfer n) := do
  let (ea, core) ← body i st.ea st.core
  return ⟨ea, st.count + 1, core⟩

/-- The loop of the handlers. -/
def movemLoop (registerList : UInt32)
    (body : Fin 16 → UInt32 → Core n → Option (UInt32 × Core n)) (st : Transfer n) :
    Option (Transfer n) :=
  (List.finRange 16).foldlM (fun st i => if inList registerList i then st.turn body i else some st)
    st

/-- The size of the transfers: words or longs. -/
inductive MovemSize where
  | word
  | long
  deriving DecidableEq, Repr

/-- The bytes of a register. -/
def MovemSize.bytes : MovemSize → Nat
  | .word => 2
  | .long => 4

/-- The shift of `CYC_MOVEM_W` and `CYC_MOVEM_L`. -/
def MovemSize.cycles : MovemSize → Nat
  | .word => 2
  | .long => 3

/-- The writes of a register to `-(Ay)`: a long is written as two words, the low one first. -/
def storeDown (ui : Ui) (size : MovemSize) (ea value : UInt32) (s : Core n) : Option (Core n) :=
  match size with
  | .word => s.write ui .word ea (value &&& 0xffff)
  | .long => do
    let s ← s.write ui .word (ea + 2) (value &&& 0xffff)
    s.write ui .word ea ((value >>> (16 : UInt32)) &&& 0xffff)

/-- The write of a register in the other modes. -/
def storeUp (ui : Ui) (size : MovemSize) (ea value : UInt32) (s : Core n) : Option (Core n) :=
  match size with
  | .word => s.write ui .word ea (value &&& 0xffff)
  | .long => s.write ui .long ea value

/-- The read of a register: a word is extended. -/
def loadRegister (size : MovemSize) (ea : UInt32) (s : Core n) : Option (UInt32 × Core n) :=
  match size with
  | .word => do
    let (value, s) ← s.read .word ea
    return (makeInt16 (value &&& 0xffff), s)
  | .long => s.read .long ea

/-- A register to `-(Ay)`. -/
def saveDown (ui : Ui) (size : MovemSize) (i : Fin 16) (ea : UInt32) (s : Core n) :
    Option (UInt32 × Core n) := do
  let ea := ea - UInt32.ofNat size.bytes
  let s ← storeDown ui size ea (s.cpu.dar i.rev) s
  return (ea, s)

/-- A register to the other modes. -/
def saveUp (ui : Ui) (size : MovemSize) (i : Fin 16) (ea : UInt32) (s : Core n) :
    Option (UInt32 × Core n) := do
  let s ← storeUp ui size ea (s.cpu.dar i) s
  return (ea + UInt32.ofNat size.bytes, s)

/-- A register from memory. -/
def restore (size : MovemSize) (i : Fin 16) (ea : UInt32) (s : Core n) :
    Option (UInt32 × Core n) := do
  let (value, s) ← loadRegister size ea s
  return (ea + UInt32.ofNat size.bytes, s.setReg i value)

/-- `m68k_op_movem_16_re_pd` and `m68k_op_movem_32_re_pd`. -/
def m68kOpMovemRePd (ui : Ui) (size : MovemSize) (s : Core n) : Option (Core n) := do
  let (registerList, s) ← m68kiReadImm16 s
  let st ← movemLoop registerList (saveDown ui size) ⟨s.cpu.dar (regA s.cpu.y), 0, s⟩
  let s := st.core.setReg (regA st.core.cpu.y) st.ea
  return s.useCycles (st.count <<< size.cycles : Nat)

/-- `m68k_op_movem_16_re` and `m68k_op_movem_32_re`, for any of their modes. -/
def m68kOpMovemRe (ui : Ui) (size : MovemSize) (getEa : Core n → Option (UInt32 × Core n))
    (s : Core n) : Option (Core n) := do
  let (registerList, s) ← m68kiReadImm16 s
  let (ea, s) ← getEa s
  let st ← movemLoop registerList (saveUp ui size) ⟨ea, 0, s⟩
  return st.core.useCycles (st.count <<< size.cycles : Nat)

/-- `m68k_op_movem_16_er_pi` and `m68k_op_movem_32_er_pi`. -/
def m68kOpMovemErPi (size : MovemSize) (s : Core n) : Option (Core n) := do
  let (registerList, s) ← m68kiReadImm16 s
  let st ← movemLoop registerList (restore size) ⟨s.cpu.dar (regA s.cpu.y), 0, s⟩
  let s := st.core.setReg (regA st.core.cpu.y) st.ea
  return s.useCycles (st.count <<< size.cycles : Nat)

/-- `m68k_op_movem_16_er` and `m68k_op_movem_32_er`, for any of their modes. -/
def m68kOpMovemEr (size : MovemSize) (getEa : Core n → Option (UInt32 × Core n)) (s : Core n) :
    Option (Core n) := do
  let (registerList, s) ← m68kiReadImm16 s
  let (ea, s) ← getEa s
  let st ← movemLoop registerList (restore size) ⟨ea, 0, s⟩
  return st.core.useCycles (st.count <<< size.cycles : Nat)

/-! ### Register lists -/

/-- The registers of a list in the order of `REG_DA`. -/
def selected (registerList : UInt32) : List (Fin 16) :=
  (List.finRange 16).filter (inList registerList)

/-- The loop is a loop over the registers of the list. -/
theorem movemLoop_eq (registerList : UInt32)
    (body : Fin 16 → UInt32 → Core n → Option (UInt32 × Core n)) (st : Transfer n) :
    movemLoop registerList body st = (selected registerList).foldlM (Transfer.turn body) st :=
  List.foldlM_filter.symm

theorem mem_selected {registerList : UInt32} {i : Fin 16} :
    i ∈ selected registerList ↔ inList registerList i = true := by
  simp [selected]

/-- Two lists name the same registers, the first in the order of `-(Ay)`. -/
def Reverses (down registerList : UInt32) : Prop :=
  ∀ i : Fin 16, inList down i.rev = inList registerList i

instance (down registerList : UInt32) : Decidable (Reverses down registerList) := by
  unfold Reverses; infer_instance

/-- The registers that are saved downwards are those of the other list, from the last one. -/
theorem Reverses.selected_eq {down registerList : UInt32} (h : Reverses down registerList) :
    (selected down).map Fin.rev = (selected registerList).reverse := by
  rw [selected, selected, ← List.filter_reverse, List.finRange_reverse, List.filter_map]
  congr 1
  refine List.filter_congr fun i _ => ?_
  rw [Function.comp_apply, ← h i.rev, Fin.rev_rev]

theorem Reverses.length_eq {down registerList : UInt32} (h : Reverses down registerList) :
    (selected down).length = (selected registerList).length := by
  have hlength := congrArg List.length h.selected_eq
  rwa [List.length_map, List.length_reverse] at hlength

/-! ### One register -/

/-- The part of a register that is transferred. -/
def MovemSize.part (size : MovemSize) (value : UInt32) : Nat := value.toNat % 256 ^ size.bytes

/-- A register as it comes back. -/
def MovemSize.back (size : MovemSize) (part : Nat) : UInt32 :=
  match size with
  | .word => makeInt16 (UInt32.ofNat part)
  | .long => UInt32.ofNat part

theorem MovemSize.bytes_pos (size : MovemSize) : 0 < size.bytes := by
  cases size <;> decide

theorem MovemSize.toNat_bytes (size : MovemSize) :
    (UInt32.ofNat size.bytes).toNat = size.bytes := by
  cases size <;> rfl

theorem MovemSize.part_lt (size : MovemSize) (value : UInt32) :
    size.part value < 256 ^ size.bytes := Nat.mod_lt _ (Nat.pow_pos (by decide))

/-- The next address of a block going up. -/
theorem InRamSpan.next {a b : UInt32} {j k : Nat} (h : InRamSpan n a (j + k)) (hn : n ≤ 0x400000)
    (hb : b.toNat = j) : InRamSpan n (a + b) k ∧ ramPlace (a + b) = ramPlace a + j := by
  obtain ⟨lo, hi⟩ := h
  have hlt := a.toNat_lt
  have hadd : (a + b).toNat = a.toNat + j := by
    rw [UInt32.toNat_add, hb]
    omega
  unfold InRamSpan ramPlace
  rw [hadd]
  omega

theorem InRamSpan.mono {a : UInt32} {j k : Nat} (h : InRamSpan n a k) (hj : j ≤ k) :
    InRamSpan n a j := by
  obtain ⟨lo, hi⟩ := h
  exact ⟨lo, by omega⟩

/-- What a write of a register to an address in the RAM does. -/
structure Stores (size : MovemSize) (ea value : UInt32) (s t : Core n) : Prop where
  cpu : t.cpu = s.cpu
  ram : t.machine.ram = poke s.machine.ram (ramPlace ea) size.bytes (size.part value)

section Registers

variable {ui : Ui} {size : MovemSize} {ea value : UInt32} {s : Core n}

theorem toNat_and_ffff (value : UInt32) : (value &&& 0xffff).toNat = value.toNat % 65536 := by
  exact toNat_maskOutAbove .word value

/-- A write of a word. -/
theorem Core.write_word (ui : Ui) (ramSize : SoundRamSize n) {s : Core n}
    (mask : s.cpu.addressMask = 0x00ffffff) (value : UInt32) (span : InRamSpan n ea 2) :
    ∃ t, s.write ui .word ea value = some t ∧ t.cpu = s.cpu ∧
      t.machine.ram = poke s.machine.ram (ramPlace ea) 2 value.toNat :=
  ⟨_, Core.write_eq ramSize ui mask .word ea value, rfl, Machine.ram_wrote ui s.machine value span⟩

theorem storeDown_stores (ui : Ui) (ramSize : SoundRamSize n)
    (mask : s.cpu.addressMask = 0x00ffffff) (value : UInt32) (span : InRamSpan n ea size.bytes) :
    ∃ t, storeDown ui size ea value s = some t ∧ Stores size ea value s t := by
  cases size with
  | word =>
    obtain ⟨t, ht, cpu, ram⟩ := Core.write_word ui ramSize mask (value &&& 0xffff) span
    refine ⟨t, ht, cpu, ?_⟩
    rw [ram, toNat_and_ffff]
    rfl
  | long =>
    obtain ⟨upper, place⟩ := InRamSpan.next (j := 2) (k := 2) (b := 2) span ramSize.upper rfl
    obtain ⟨t, ht, cpu, ram⟩ := Core.write_word ui ramSize mask (value &&& 0xffff) upper
    obtain ⟨u, hu, cpu', ram'⟩ := Core.write_word ui ramSize (by rw [cpu]; exact mask)
      ((value >>> (16 : UInt32)) &&& 0xffff) (span.mono (by decide))
    refine ⟨u, by rw [storeDown, ht, Option.bind_eq_bind, Option.bind_some, hu],
      cpu'.trans cpu, ?_⟩
    have hlt : value.toNat < 256 ^ 4 := value.toNat_lt
    have hhigh : ((value >>> (16 : UInt32)) &&& 0xffff).toNat = value.toNat / 256 ^ 2 := by
      rw [toNat_and_ffff, UInt32.toNat_shiftRight, Nat.shiftRight_eq_div_pow]
      exact Nat.mod_eq_of_lt (by simp; omega)
    have hlow : (value &&& 0xffff).toNat = value.toNat % 256 ^ 2 := toNat_and_ffff value
    have happend := poke_append s.machine.ram (ramPlace ea) 2 2 value.toNat
    rw [← poke_mod _ (ramPlace ea + 2)] at happend
    rw [ram', ram, place, hhigh, hlow, happend, MovemSize.part]
    exact congrArg _ (Nat.mod_eq_of_lt hlt).symm

theorem storeUp_stores (ui : Ui) (ramSize : SoundRamSize n)
    (mask : s.cpu.addressMask = 0x00ffffff) (value : UInt32) (span : InRamSpan n ea size.bytes) :
    ∃ t, storeUp ui size ea value s = some t ∧ Stores size ea value s t := by
  cases size with
  | word => exact storeDown_stores ui ramSize mask value span
  | long =>
    refine ⟨_, Core.write_eq ramSize ui mask .long ea value, rfl, ?_⟩
    have hlt : value.toNat < 256 ^ 4 := value.toNat_lt
    rw [MovemSize.part, MovemSize.bytes, Nat.mod_eq_of_lt hlt]
    exact Machine.ram_wrote ui s.machine value span

theorem loadRegister_eq (ramSize : SoundRamSize n) (mask : s.cpu.addressMask = 0x00ffffff)
    (span : InRamSpan n ea size.bytes) :
    loadRegister size ea s
      = some (size.back (BigEndian.value s.machine.ram (ramPlace ea) size.bytes), s) := by
  cases size with
  | word =>
    have hread := Core.read_ram ramSize mask .word span
    have hvalue := value_lt s.machine.ram (ramPlace ea) 2
    rw [loadRegister, hread, Option.bind_eq_bind, Option.bind_some]
    have hmask : UInt32.ofNat (BigEndian.value s.machine.ram (ramPlace ea) 2) &&& 0xffff
        = UInt32.ofNat (BigEndian.value s.machine.ram (ramPlace ea) 2) := by
      apply UInt32.toNat_inj.mp
      rw [toNat_and_ffff, UInt32.toNat_ofNat']
      omega
    exact congrArg (fun v => some (makeInt16 v, s)) hmask
  | long => exact Core.read_ram ramSize mask .long span

/-! ### The loops -/

/-- The addresses of a loop. -/
theorem add_bytes_succ (a : UInt32) (k l : Nat) :
    a + UInt32.ofNat l + UInt32.ofNat (k * l) = a + UInt32.ofNat ((k + 1) * l) := by
  rw [Nat.succ_mul, UInt32.ofNat_add]
  grind

theorem sub_bytes_succ (a : UInt32) (k l : Nat) :
    a - UInt32.ofNat l - UInt32.ofNat (k * l) = a - UInt32.ofNat ((k + 1) * l) := by
  rw [Nat.succ_mul, UInt32.ofNat_add]
  grind

theorem saveDown_loop (ui : Ui) (ramSize : SoundRamSize n) (is : List (Fin 16)) (st : Transfer n)
    (mask : st.core.cpu.addressMask = 0x00ffffff)
    (room : InRamBelow n st.ea (is.length * size.bytes)) :
    ∃ t, is.foldlM (Transfer.turn (saveDown ui size)) st
        = some ⟨st.ea - UInt32.ofNat (is.length * size.bytes), st.count + is.length, t⟩ ∧
      t.cpu = st.core.cpu ∧
      t.machine.ram = Block.down size.bytes st.core.machine.ram (ramPlace st.ea)
        (is.map fun i => size.part (st.core.cpu.dar i.rev)) := by
  induction is generalizing st with
  | nil =>
    refine ⟨st.core, ?_, rfl, rfl⟩
    rw [List.foldlM_nil, List.length_nil, Nat.zero_mul]
    exact congrArg (fun a => some (Transfer.mk a st.count st.core)) (UInt32.sub_zero _).symm
  | cons i is ih =>
    have hsplit : (i :: is).length * size.bytes = size.bytes + is.length * size.bytes := by
      rw [List.length_cons]
      ring
    rw [hsplit] at room
    obtain ⟨span, place⟩ := (room.mono (Nat.le_add_right _ _)).span ramSize.upper size.toNat_bytes
    obtain ⟨t, ht, cpu, ram⟩ := storeDown_stores ui ramSize mask (st.core.cpu.dar i.rev) span
    have hturn : st.turn (saveDown ui size) i
        = some ⟨st.ea - UInt32.ofNat size.bytes, st.count + 1, t⟩ := by
      rw [Transfer.turn, saveDown]
      dsimp only
      rw [ht]
      rfl
    obtain ⟨u, hu, cpu', ram'⟩ := ih
      ⟨st.ea - UInt32.ofNat size.bytes, st.count + 1, t⟩ (by rw [cpu]; exact mask)
      (room.part ramSize.upper size.toNat_bytes)
    refine ⟨u, ?_, cpu'.trans cpu, ?_⟩
    · rw [List.foldlM_cons, hturn, Option.bind_eq_bind, Option.bind_some, hu, sub_bytes_succ,
        List.length_cons, Nat.add_assoc, Nat.add_comm 1]
    · rw [ram', cpu, ram, place]
      rfl

theorem saveUp_loop (ui : Ui) (ramSize : SoundRamSize n) (is : List (Fin 16)) (st : Transfer n)
    (mask : st.core.cpu.addressMask = 0x00ffffff)
    (room : InRamSpan n st.ea (is.length * size.bytes)) :
    ∃ t, is.foldlM (Transfer.turn (saveUp ui size)) st
        = some ⟨st.ea + UInt32.ofNat (is.length * size.bytes), st.count + is.length, t⟩ ∧
      t.cpu = st.core.cpu ∧
      t.machine.ram = Block.up size.bytes st.core.machine.ram (ramPlace st.ea)
        (is.map fun i => size.part (st.core.cpu.dar i)) := by
  induction is generalizing st with
  | nil =>
    refine ⟨st.core, ?_, rfl, rfl⟩
    rw [List.foldlM_nil, List.length_nil, Nat.zero_mul]
    exact congrArg (fun a => some (Transfer.mk a st.count st.core)) (UInt32.add_zero _).symm
  | cons i is ih =>
    have hsplit : (i :: is).length * size.bytes = size.bytes + is.length * size.bytes := by
      rw [List.length_cons]
      ring
    rw [hsplit] at room
    obtain ⟨room', place⟩ := room.next ramSize.upper size.toNat_bytes
    obtain ⟨t, ht, cpu, ram⟩ := storeUp_stores ui ramSize mask (st.core.cpu.dar i)
      (room.mono (Nat.le_add_right _ _))
    have hturn : st.turn (saveUp ui size) i
        = some ⟨st.ea + UInt32.ofNat size.bytes, st.count + 1, t⟩ := by
      rw [Transfer.turn, saveUp, ht]
      rfl
    obtain ⟨u, hu, cpu', ram'⟩ := ih
      ⟨st.ea + UInt32.ofNat size.bytes, st.count + 1, t⟩ (by rw [cpu]; exact mask) room'
    refine ⟨u, ?_, cpu'.trans cpu, ?_⟩
    · rw [List.foldlM_cons, hturn, Option.bind_eq_bind, Option.bind_some, hu, add_bytes_succ,
        List.length_cons, Nat.add_assoc, Nat.add_comm 1]
    · rw [ram', cpu, ram, place]
      rfl

/-- A loop that restores, from a block that holds the parts `f` of the registers. -/
theorem restore_loop (ramSize : SoundRamSize n) (f : Fin 16 → Nat) (is : List (Fin 16))
    (st : Transfer n) (mask : st.core.cpu.addressMask = 0x00ffffff)
    (room : InRamSpan n st.ea (is.length * size.bytes))
    (block : Block.upward size.bytes st.core.machine.ram (ramPlace st.ea) is.length = is.map f) :
    ∃ dar, is.foldlM (Transfer.turn (restore size)) st
        = some ⟨st.ea + UInt32.ofNat (is.length * size.bytes), st.count + is.length,
            { st.core with cpu := { st.core.cpu with dar } }⟩ ∧
      ∀ r, dar r = if r ∈ is then size.back (f r) else st.core.cpu.dar r := by
  induction is generalizing st with
  | nil =>
    refine ⟨st.core.cpu.dar, ?_, fun r => rfl⟩
    rw [List.foldlM_nil, List.length_nil, Nat.zero_mul]
    exact congrArg (fun a => some (Transfer.mk a st.count st.core)) (UInt32.add_zero _).symm
  | cons i is ih =>
    have hsplit : (i :: is).length * size.bytes = size.bytes + is.length * size.bytes := by
      rw [List.length_cons]
      ring
    rw [hsplit] at room
    rw [List.length_cons, Block.upward, List.map_cons, List.cons.injEq] at block
    obtain ⟨here, rest⟩ := block
    obtain ⟨room', place⟩ := room.next ramSize.upper size.toNat_bytes
    have hload := loadRegister_eq ramSize mask (room.mono (Nat.le_add_right _ _))
    rw [here] at hload
    have hturn : st.turn (restore size) i = some ⟨st.ea + UInt32.ofNat size.bytes, st.count + 1,
        st.core.setReg i (size.back (f i))⟩ := by
      rw [Transfer.turn, restore, hload]
      rfl
    obtain ⟨dar, hloop, hdar⟩ := ih
      ⟨st.ea + UInt32.ofNat size.bytes, st.count + 1, st.core.setReg i (size.back (f i))⟩
      (by exact mask) room' (by rw [place]; exact rest)
    refine ⟨dar, ?_, fun r => ?_⟩
    · rw [List.foldlM_cons, hturn, Option.bind_eq_bind, Option.bind_some, hloop, add_bytes_succ,
        List.length_cons, Nat.add_assoc, Nat.add_comm 1]
      rfl
    · rw [hdar r, Core.setReg_dar]
      by_cases hr : r ∈ is
      · rw [if_pos hr, if_pos (List.mem_cons_of_mem i hr)]
      · rw [if_neg hr]
        by_cases hi : r = i
        · rw [if_pos hi, hi, if_pos List.mem_cons_self]
        · rw [if_neg hi, if_neg (by simp [hi, hr])]

end Registers

/-! ### The blocks -/

/-- The number in a block that holds registers, the first one of the list at its start. -/
def savedBlock (size : MovemSize) (registerList : UInt32) (dar : CArray UInt32 16) : Nat :=
  Block.number size.bytes ((selected registerList).map fun i => size.part (dar i)).reverse

/-- The bytes of a block. -/
def blockBytes (size : MovemSize) (registerList : UInt32) : Nat :=
  (selected registerList).length * size.bytes

theorem savedBlock_lt (size : MovemSize) (registerList : UInt32) (dar : CArray UInt32 16) :
    savedBlock size registerList dar < 256 ^ blockBytes size registerList := by
  have hlt := Block.number_lt
    ((selected registerList).map fun i => size.part (dar i)).reverse fun v hv => by
      obtain ⟨i, -, rfl⟩ := List.mem_map.mp (List.mem_reverse.mp hv)
      exact size.part_lt (dar i)
  rwa [List.length_reverse, List.length_map] at hlt

/-- The registers in a block. -/
theorem upward_savedBlock {size : MovemSize} {registerList : UInt32} {dar : CArray UInt32 16}
    {mem : Memory} {a : Nat}
    (here : value mem a (blockBytes size registerList) = savedBlock size registerList dar) :
    Block.upward size.bytes mem a (selected registerList).length
      = (selected registerList).map fun i => size.part (dar i) := by
  have hlength : ((selected registerList).map fun i => size.part (dar i)).reverse.length
      = (selected registerList).length := by rw [List.length_reverse, List.length_map]
  have hblock := Block.upward_of_value
    ((selected registerList).map fun i => size.part (dar i)).reverse size.bytes_pos
    (fun v hv => by
      obtain ⟨i, -, rfl⟩ := List.mem_map.mp (List.mem_reverse.mp hv)
      exact size.part_lt (dar i))
    (by rw [hlength]; exact here)
  rwa [hlength, List.reverse_reverse] at hblock

/-- A register that is transferred as a whole comes back as it was. -/
theorem back_part_long (value : UInt32) :
    MovemSize.long.back (MovemSize.long.part value) = value := by
  have hlt : value.toNat < 256 ^ 4 := value.toNat_lt
  rw [MovemSize.back, MovemSize.part, MovemSize.bytes, Nat.mod_eq_of_lt hlt, UInt32.ofNat_toNat]

/-! ### Saving and restoring -/

/-- A mode of a `movem`: the one that steps its address register, `-(Ay)` or `(Ay)+`, or
another one. -/
inductive MovemMode (n : Nat) where
  | stepping
  | control (getEa : Core n → Option (UInt32 × Core n))

/-- The handler that saves. -/
def MovemMode.save (ui : Ui) (size : MovemSize) : MovemMode n → Core n → Option (Core n)
  | .stepping => m68kOpMovemRePd ui size
  | .control getEa => m68kOpMovemRe ui size getEa

/-- The handler that restores. -/
def MovemMode.restore (size : MovemSize) : MovemMode n → Core n → Option (Core n)
  | .stepping => m68kOpMovemErPi size
  | .control getEa => m68kOpMovemEr size getEa

/-- A control mode finds its block at `a`, after the register list has been read, and changes
neither registers nor the RAM. -/
structure Finds (getEa : Core n → Option (UInt32 × Core n)) (registerList a : UInt32)
    (s : Core n) : Prop where
  finds : ∃ s₁ s₂, m68kiReadImm16 s = some (registerList, s₁) ∧ getEa s₁ = some (a, s₂) ∧
    s₂.cpu.dar = s.cpu.dar ∧ s₂.cpu.addressMask = s.cpu.addressMask ∧
    s₂.machine.ram = s.machine.ram

/-- The instruction at hand saves the registers of a list in the RAM at `a`. -/
def MovemMode.SavesAt (size : MovemSize) (registerList a : UInt32) :
    MovemMode n → Core n → Prop
  | .stepping, s => a = s.cpu.dar (regA s.cpu.y) - UInt32.ofNat (blockBytes size registerList) ∧
      InRamBelow n (s.cpu.dar (regA s.cpu.y)) (blockBytes size registerList) ∧
      ∃ down s₁, m68kiReadImm16 s = some (down, s₁) ∧ Reverses down registerList
  | .control getEa, s => InRamSpan n a (blockBytes size registerList) ∧
      Finds getEa registerList a s

/-- The instruction at hand restores the registers of a list from the RAM at `a`. -/
def MovemMode.RestoresAt (size : MovemSize) (registerList a : UInt32) :
    MovemMode n → Core n → Prop
  | .stepping, s => a = s.cpu.dar (regA s.cpu.y) ∧
      InRamSpan n a (blockBytes size registerList) ∧
      ∃ s₁, m68kiReadImm16 s = some (registerList, s₁)
  | .control getEa, s => InRamSpan n a (blockBytes size registerList) ∧
      Finds getEa registerList a s

/-- The registers after an instruction: a stepping mode leaves its address register at `stop`. -/
def MovemMode.after (stop : UInt32) (y : Fin 8) : MovemMode n → CArray UInt32 16 → CArray UInt32 16
  | .stepping, dar => dar.set (regA y) stop
  | .control _, dar => dar

section Instructions

variable {ui : Ui} {size : MovemSize} {registerList a : UInt32} {s : Core n}

/-- The end of a block below an address register. -/
theorem ramPlace_block (hn : n ≤ 0x400000) {b : UInt32} {k : Nat} (room : InRamBelow n b k) :
    ramPlace b - k = ramPlace (b - UInt32.ofNat k) := by
  refine (room.span hn ?_).2.symm
  obtain ⟨lo, hi⟩ := room
  rw [UInt32.toNat_ofNat']
  omega

/-- A `movem` to `-(Ay)` saves its registers in a block. -/
theorem m68kOpMovemRePd_saves (ui : Ui) (ramSize : SoundRamSize n) {down : UInt32} {s₁ : Core n}
    (mask : s.cpu.addressMask = 0x00ffffff) (imm : m68kiReadImm16 s = some (down, s₁))
    (reverses : Reverses down registerList)
    (room : InRamBelow n (s.cpu.dar (regA s.cpu.y)) (blockBytes size registerList))
    (ha : a = s.cpu.dar (regA s.cpu.y) - UInt32.ofNat (blockBytes size registerList)) :
    ∃ (t : Core n) (k : Nat), m68kOpMovemRePd ui size s
        = some ((t.setReg (regA s.cpu.y) a).useCycles (k <<< size.cycles : Nat)) ∧
      t.cpu = s₁.cpu ∧
      t.machine.ram = poke s.machine.ram (ramPlace a) (blockBytes size registerList)
        (savedBlock size registerList s.cpu.dar) := by
  obtain ⟨cpu, ram⟩ := m68kiReadImm16_same ramSize.upper imm
  have hbytes : (selected down).length * size.bytes = blockBytes size registerList := by
    rw [blockBytes, reverses.length_eq]
  have hdar : s₁.cpu.dar = s.cpu.dar := by rw [cpu]
  have hy : s₁.cpu.y = s.cpu.y := by simp only [Cpu.y, cpu]
  obtain ⟨t, hloop, cpu', ram'⟩ := saveDown_loop ui ramSize (selected down)
    ⟨s₁.cpu.dar (regA s₁.cpu.y), 0, s₁⟩ (by rw [cpu]; exact mask)
    (by rw [hbytes, hy, hdar]; exact room)
  have hvs : ((selected down).map fun i => size.part (s₁.cpu.dar i.rev))
      = ((selected registerList).map fun i => size.part (s.cpu.dar i)).reverse := by
    rw [← List.map_reverse, ← reverses.selected_eq, List.map_map, hdar]
    rfl
  have hy' : t.cpu.y = s.cpu.y := by rw [cpu', hy]
  dsimp only at hloop ram' cpu'
  rw [hbytes, hy, hdar, ← ha] at hloop
  rw [hvs, hy, hdar, ram] at ram'
  refine ⟨t, 0 + (selected down).length, ?_, cpu', ?_⟩
  · rw [m68kOpMovemRePd, imm, Option.bind_eq_bind, Option.bind_some]
    dsimp only
    rw [movemLoop_eq, hy, hdar, hloop, Option.bind_eq_bind, Option.bind_some]
    dsimp only
    rw [hy']
    rfl
  · rw [ram', Block.down_eq]
    · rw [List.length_reverse, List.length_map, ha, ← ramPlace_block ramSize.upper room]
      rfl
    · intro v hv
      obtain ⟨i, -, rfl⟩ := List.mem_map.mp (List.mem_reverse.mp hv)
      exact size.part_lt _
    · rw [List.length_reverse, List.length_map]
      exact room.le

/-- A `movem` to memory saves its registers in a block. -/
theorem MovemMode.saves (ui : Ui) (ramSize : SoundRamSize n) (mode : MovemMode n)
    (mask : s.cpu.addressMask = 0x00ffffff) (h : mode.SavesAt size registerList a s) :
    ∃ t, mode.save ui size s = some t ∧ t.cpu.addressMask = 0x00ffffff ∧
      t.cpu.dar = mode.after a s.cpu.y s.cpu.dar ∧
      t.machine.ram = poke s.machine.ram (ramPlace a) (blockBytes size registerList)
        (savedBlock size registerList s.cpu.dar) := by
  cases mode with
  | stepping =>
    obtain ⟨ha, room, down, s₁, imm, reverses⟩ := h
    obtain ⟨cpu, -⟩ := m68kiReadImm16_same ramSize.upper imm
    obtain ⟨t, k, ht, cpu', ram⟩ := m68kOpMovemRePd_saves ui ramSize mask imm reverses room ha
    refine ⟨_, ht, ?_, ?_, ram⟩
    · show t.cpu.addressMask = _
      rw [cpu', cpu]
      exact mask
    · show t.cpu.dar.set _ a = _
      rw [cpu', cpu]
      rfl
  | control getEa =>
    obtain ⟨room, s₁, s₂, imm, ea, dar, hmask, ram⟩ := h
    obtain ⟨t, hloop, cpu', ram'⟩ := saveUp_loop ui ramSize (selected registerList)
      ⟨a, 0, s₂⟩ (hmask.trans mask) room
    dsimp only at hloop ram' cpu'
    rw [dar, ram] at ram'
    refine ⟨t.useCycles (((0 + (selected registerList).length) <<< size.cycles : Nat)), ?_, ?_, ?_,
      ?_⟩
    · rw [MovemMode.save, m68kOpMovemRe, imm, Option.bind_eq_bind, Option.bind_some]
      dsimp only
      rw [ea, Option.bind_some]
      dsimp only
      rw [movemLoop_eq, hloop]
      rfl
    · show t.cpu.addressMask = _
      rw [cpu', hmask, mask]
    · show t.cpu.dar = _
      rw [cpu', dar]
      rfl
    · show t.machine.ram = _
      rw [ram', Block.up_eq]
      · rw [List.length_map]
        rfl
      · intro v hv
        obtain ⟨i, -, rfl⟩ := List.mem_map.mp hv
        exact size.part_lt _

/-- The core with other registers. -/
def Core.withRegisters (s : Core n) (dar : CArray UInt32 16) : Core n :=
  { s with cpu := { s.cpu with dar } }

/-- A `movem` from `(Ay)+` restores the registers of a block. -/
theorem m68kOpMovemErPi_restores (ramSize : SoundRamSize n) {s₁ : Core n}
    {saved : CArray UInt32 16} (mask : s.cpu.addressMask = 0x00ffffff)
    (imm : m68kiReadImm16 s = some (registerList, s₁)) (ha : a = s.cpu.dar (regA s.cpu.y))
    (room : InRamSpan n a (blockBytes size registerList))
    (here : value s.machine.ram (ramPlace a) (blockBytes size registerList)
      = savedBlock size registerList saved) :
    ∃ (dar : CArray UInt32 16) (k : Nat), m68kOpMovemErPi size s
        = some (((s₁.withRegisters dar).setReg (regA s.cpu.y)
            (a + UInt32.ofNat (blockBytes size registerList))).useCycles
              (k <<< size.cycles : Nat)) ∧
      ∀ r, dar r = if r ∈ selected registerList then size.back (size.part (saved r))
        else s.cpu.dar r := by
  obtain ⟨cpu, ram⟩ := m68kiReadImm16_same ramSize.upper imm
  have hdar : s₁.cpu.dar = s.cpu.dar := by rw [cpu]
  have hy : s₁.cpu.y = s.cpu.y := by simp only [Cpu.y, cpu]
  have hblock : Block.upward size.bytes s₁.machine.ram (ramPlace a)
      (selected registerList).length
        = (selected registerList).map fun i => size.part (saved i) := by
    rw [ram]
    exact upward_savedBlock here
  obtain ⟨dar, hloop, all⟩ := restore_loop ramSize (fun i => size.part (saved i))
    (selected registerList) ⟨a, 0, s₁⟩ (by rw [cpu]; exact mask) room hblock
  dsimp only at hloop all
  rw [hdar] at all
  refine ⟨dar, 0 + (selected registerList).length, ?_, all⟩
  rw [m68kOpMovemErPi, imm, Option.bind_eq_bind, Option.bind_some]
  dsimp only
  rw [movemLoop_eq, hy, hdar, ← ha, hloop, ← hy]
  rfl

/-- A `movem` from memory restores the registers of a block. -/
theorem MovemMode.restores (ramSize : SoundRamSize n) (mode : MovemMode n)
    (mask : s.cpu.addressMask = 0x00ffffff) (h : mode.RestoresAt size registerList a s)
    {saved : CArray UInt32 16}
    (here : value s.machine.ram (ramPlace a) (blockBytes size registerList)
      = savedBlock size registerList saved) :
    ∃ (t : Core n) (dar : CArray UInt32 16), mode.restore size s = some t ∧
      t.cpu.dar
        = mode.after (a + UInt32.ofNat (blockBytes size registerList)) s.cpu.y dar ∧
      (∀ r, dar r = if r ∈ selected registerList then size.back (size.part (saved r))
        else s.cpu.dar r) ∧
      t.machine.ram = s.machine.ram := by
  cases mode with
  | stepping =>
    obtain ⟨ha, room, s₁, imm⟩ := h
    obtain ⟨-, ram⟩ := m68kiReadImm16_same ramSize.upper imm
    obtain ⟨dar, k, ht, all⟩ := m68kOpMovemErPi_restores ramSize mask imm ha room here
    exact ⟨_, dar, ht, rfl, all, ram⟩
  | control getEa =>
    obtain ⟨room, s₁, s₂, imm, ea, hdar, hmask, ram⟩ := h
    have hblock : Block.upward size.bytes s₂.machine.ram (ramPlace a)
        (selected registerList).length
          = (selected registerList).map fun i => size.part (saved i) := by
      rw [ram]
      exact upward_savedBlock here
    obtain ⟨dar, hloop, all⟩ := restore_loop ramSize (fun i => size.part (saved i))
      (selected registerList) ⟨a, 0, s₂⟩ (hmask.trans mask) room hblock
    dsimp only at hloop all
    rw [hdar] at all
    refine ⟨(s₂.withRegisters dar).useCycles
      ((0 + (selected registerList).length) <<< size.cycles : Nat), dar, ?_, rfl, all, ram⟩
    rw [MovemMode.restore, m68kOpMovemEr, imm, Option.bind_eq_bind, Option.bind_some]
    dsimp only
    rw [ea, Option.bind_some]
    dsimp only
    rw [movemLoop_eq, hloop]
    rfl

end Instructions

/-- **Registers come back from where they were saved.** A `movem` saves the registers of any
list, as words or longs, in a block in the RAM, through `-(Ay)` or a mode that does not step. When
later a `movem` of the same list and size, in any mode, reads that block, and the block has been
left alone, each register of the list has its value back, a word with its sign extended, the
stepped address register of the second instruction stands behind the block, and every other
register is as before it. -/
theorem movem_round_trip (ramSize : SoundRamSize n) (ui : Ui) (size : MovemSize)
    (registerList a : UInt32) (there back : MovemMode n) {s : Core n}
    (mask : s.cpu.addressMask = 0x00ffffff) (saves : there.SavesAt size registerList a s) :
    ∃ t, there.save ui size s = some t ∧ t.cpu.dar = there.after a s.cpu.y s.cpu.dar ∧
      (∀ i, i < ramPlace a ∨ ramPlace a + blockBytes size registerList ≤ i →
        t.machine.ram i = s.machine.ram i) ∧
      ∀ u : Core n, u.cpu.addressMask = 0x00ffffff → back.RestoresAt size registerList a u →
        (∀ i, ramPlace a ≤ i → i < ramPlace a + blockBytes size registerList →
          u.machine.ram i = t.machine.ram i) →
        ∃ (v : Core n) (dar : CArray UInt32 16), back.restore size u = some v ∧
          v.cpu.dar = back.after (a + UInt32.ofNat (blockBytes size registerList)) u.cpu.y dar ∧
          ∀ r, dar r = if inList registerList r then size.back (size.part (s.cpu.dar r))
            else u.cpu.dar r := by
  obtain ⟨t, ht, -, dar, ram⟩ := MovemMode.saves ui ramSize there mask saves
  refine ⟨t, ht, dar, fun i hi => ?_, fun u umask restores kept => ?_⟩
  · rw [ram, poke_of_not_mem _ _ hi]
  · have here : value u.machine.ram (ramPlace a) (blockBytes size registerList)
        = savedBlock size registerList s.cpu.dar := by
      rw [value_congr kept, ram, value_poke, Nat.mod_eq_of_lt (savedBlock_lt _ _ _)]
    obtain ⟨v, dar', hv, after, all, -⟩ := back.restores ramSize umask restores here
    refine ⟨v, dar', hv, after, fun r => ?_⟩
    rw [all r]
    exact if_congr mem_selected rfl rfl

/-- Before D0 and A0 are saved below A1 and cleared: the two register lists at the program
counter. -/
def Core.beforeSave : Core ramSize :=
  .loaded { Cpu.initial with
    ir := 1
    pc := 0x400000
    dar := (Cpu.initial.dar.set 0 0xdeadbeef).set 9 0x400100 } [0x80, 0x80, 0x01, 0x01]

/-- The core that has cleared D0 and comes to the second list. -/
def Core.beforeRestore (t : Core n) : Core n :=
  { t with cpu := { t.cpu with
      pc := 0x400002
      ir := 1
      dar := t.cpu.dar.set 0 0
      addressMask := 0x00ffffff } }

theorem movem_round_trip_beforeSave :
    ∃ t v, m68kOpMovemRePd .xlib .long Core.beforeSave = some t ∧
      m68kOpMovemErPi .long t.beforeRestore = some v ∧ v.cpu.dar 0 = 0xdeadbeef := by
  have hplace : ramPlace 0x400000 = 0 ∧ ramPlace 0x400002 = 2 ∧ ramPlace 0x4000f8 = 248 := by
    unfold ramPlace
    decide
  have hbyte : ∀ i < ramSize, Core.beforeSave.machine.ram i = [0x80, 0x80, 0x01, 0x01].getD i 0 :=
    fun i hi => ram_loaded _ _ hi
  have down : CodeAt Core.beforeSave 0x400000 0x8080 := by
    refine ⟨by decide, ?_⟩
    rw [hplace.1, value_succ, value_succ, value_zero, hbyte _ (by decide), hbyte _ (by decide)]
    rfl
  have up : CodeAt Core.beforeSave 0x400002 0x0101 := by
    refine ⟨by decide, ?_⟩
    rw [hplace.2.1, value_succ, value_succ, value_zero, hbyte _ (by decide), hbyte _ (by decide)]
    rfl
  have imm := m68kiReadImm16_code soundRamSize_ramSize (s := Core.beforeSave) rfl down
  obtain ⟨t, ht, dar, frame, back⟩ := movem_round_trip soundRamSize_ramSize .xlib .long 0x0101
    0x4000f8 .stepping .stepping (s := Core.beforeSave) rfl
    ⟨by decide, by decide, _, _, imm, by decide⟩
  -- the second list is outside the block
  have up' : CodeAt t.beforeRestore 0x400002 0x0101 := by
    refine up.congr fun i lo hi => frame i (.inl ?_)
    rw [hplace.2.2]
    rw [hplace.2.1] at hi
    omega
  have imm' := m68kiReadImm16_code soundRamSize_ramSize (s := t.beforeRestore) rfl up'
  have hy : t.beforeRestore.cpu.y = 1 := by
    show Cpu.y { Cpu.initial with ir := 1 } = 1
    decide
  have ha1 : t.beforeRestore.cpu.dar (regA t.beforeRestore.cpu.y) = 0x4000f8 := by
    rw [hy]
    show t.cpu.dar.set 0 0 9 = _
    rw [dar]
    rfl
  obtain ⟨v, dar', hv, after, all⟩ := back t.beforeRestore rfl ⟨ha1.symm, by decide, _, imm'⟩
    fun i _ _ => rfl
  refine ⟨t, v, ht, hv, ?_⟩
  have h0 : v.cpu.dar 0 = dar' 0 := by
    rw [after, hy]
    rfl
  rw [h0, all, if_pos (by decide)]
  decide

end Kyacopycat
