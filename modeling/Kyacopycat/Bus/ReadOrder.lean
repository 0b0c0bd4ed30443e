import Kyacopycat.Bus.ReadEffect
import Kyacopycat.Lib.EvalOrder
import Mathlib.Data.List.Nodup

/-!
Wide reads and the order of their byte reads.

`m68k_read_memory_16` and `m68k_read_memory_32` read their bytes inside one expression, and
C lets a compiler make these calls in any order. `readInOrder` makes them in a given one.

* `m68kReadMemory8_commute`: byte reads at different addresses commute.
* `read_order_irrelevant`: every order gives the value and the state that the order of the
  source text gives.
-/

namespace Kyacopycat

open EvalOrder

variable {n : Nat}

/-! ### Byte reads commute -/

/-- What a byte read at `a` returns, where it is defined. -/
def byteValue (s : Machine n) (a : UInt32) : Option UInt32 :=
  (m68kReadMemory8 s a).map Prod.fst

/-- A byte read is its value and its effect. -/
theorem m68kReadMemory8_eq (hn : n ≤ 0x400000) (s : Machine n) (a : UInt32) :
    m68kReadMemory8 s a = (byteValue s a).map fun v => (v, readEffect s a) := by
  rw [byteValue]
  cases h : m68kReadMemory8 s a with
  | none => rfl
  | some r =>
    obtain ⟨v, t⟩ := r
    rw [m68kReadMemory8_effect hn h]
    rfl

theorem readEffect_comm (s : Machine n) (a b : UInt32) :
    readEffect (readEffect s a) b = readEffect (readEffect s b) a := by
  simp only [readEffect]
  congr 1 <;> split <;> split <;> rfl

/-- A register reads the same after a read of another address. -/
theorem readRegister_readEffect (s : Machine n) {a b : UInt32} (hne : a ≠ b) :
    (readRegister (readEffect s b) a).1 = (readRegister s a).1 := by
  have hb : ∀ {c : UInt32}, a = c → b ≠ c := fun ha hb => hne (ha.trans hb.symm)
  unfold readRegister
  split
  · rfl
  split
  · rfl
  split
  next h => simp only [readEffect, if_neg (hb h)]
  split
  · rfl
  split
  next h => simp only [readEffect, if_neg (hb h)]
  split
  next h => simp only [readEffect, if_neg (hb h)]
  repeat' split
  all_goals rfl

/-- A byte reads the same after a read of another address. -/
theorem byteValue_readEffect (s : Machine n) {a b : UInt32} (hne : a ≠ b) :
    byteValue (readEffect s b) a = byteValue s a := by
  simp only [byteValue, m68kReadMemory8, apply_ite (Option.map Prod.fst), Option.map_map,
    Option.map_some, Function.comp_def, readRegister_readEffect s hne]
  rfl

/-- Byte reads at different addresses commute, in their values and in their effects. -/
theorem m68kReadMemory8_commute (hn : n ≤ 0x400000) :
    Pairwise (Commute fun (a : UInt32) (s : Machine n) => m68kReadMemory8 s a) := by
  intro a b hne s
  simp only [m68kReadMemory8_eq hn, Option.bind_map, Option.map_map, Function.comp_def,
    byteValue_readEffect s hne, byteValue_readEffect s hne.symm, readEffect_comm s a b]
  cases byteValue s a <;> cases byteValue s b <;> rfl

/-! ### Wide reads -/

/-- The expression that puts the bytes of a read together, given what its byte reads return. -/
def assemble (w : Width) (address : UInt32) (byte : UInt32 → UInt32) : UInt32 :=
  match w with
  | .byte => byte address
  | .word => byte (address + 1) ||| (byte address <<< 8)
  | .long =>
    byte (address + 3) ||| (byte (address + 2) <<< 8) ||| (byte (address + 1) <<< 16) |||
      (byte address <<< 24)

/-- A read whose byte reads are made in the given order. -/
def readInOrder (w : Width) (order : List UInt32) (s : Machine n) (address : UInt32) :
    Option (UInt32 × Machine n) :=
  (evalAll (fun a s => m68kReadMemory8 s a) order (fun _ => 0) s).map fun (byte, s) =>
    (assemble w address byte, s)

/-- The lanes of an access are different addresses. -/
theorem laneAddresses_nodup (w : Width) (address : UInt32) : (laneAddresses w address).Nodup := by
  have hlanes := w.lanes_le
  refine List.Nodup.map_on (fun j hj k hk h => ?_) List.nodup_range
  rw [List.mem_range] at hj hk
  exact lane_inj (by omega) (by omega) h

/-- The order of the source text is from the last lane to the first. -/
theorem readInOrder_reverse (w : Width) (s : Machine n) (address : UInt32) :
    readInOrder w (laneAddresses w address).reverse s address = m68kReadMemory w s address := by
  cases w with
  | byte =>
    rw [laneAddresses_byte]
    simp [readInOrder, evalAll, assemble, m68kReadMemory]
  | word =>
    rw [laneAddresses_word]
    simp [readInOrder, evalAll, assemble, m68kReadMemory, m68kReadMemory16, Option.map_bind]
  | long =>
    rw [laneAddresses_long]
    simp [readInOrder, evalAll, assemble, m68kReadMemory, m68kReadMemory32, Option.map_bind]

/-- Every order of the byte reads gives the same read. -/
theorem readInOrder_eq (hn : n ≤ 0x400000) (w : Width) {order : List UInt32} {address : UInt32}
    (perm : order.Perm (laneAddresses w address)) (s : Machine n) :
    readInOrder w order s address = m68kReadMemory w s address := by
  have hperm := perm.trans (List.reverse_perm (laneAddresses w address)).symm
  have hnodup := perm.nodup_iff.mpr (laneAddresses_nodup w address)
  rw [← readInOrder_reverse, readInOrder, evalAll_perm (m68kReadMemory8_commute hn) hperm hnodup]
  rfl

/-- A byte reads the same after reads of other addresses. -/
theorem byteValue_readEffects (s : Machine n) {a : UInt32} {as : List UInt32} (h : a ∉ as) :
    byteValue (readEffects s as) a = byteValue s a := by
  induction as with
  | nil => rfl
  | cons b as ih =>
    obtain ⟨hne, hrest⟩ := not_or.mp (mt List.mem_cons.mpr h)
    exact (byteValue_readEffect _ hne).trans (ih hrest)

/-- Each lane of a read is the byte that a byte read of its address alone returns. -/
theorem m68kReadMemory_bytes (hn : n ≤ 0x400000) {w : Width} {s t : Machine n} {a v : UInt32}
    (h : m68kReadMemory w s a = some (v, t)) {k : Nat} (hk : k < w.lanes) :
    byteValue s (a + UInt32.ofNat k) = some (laneByte w v k).toUInt32 := by
  obtain ⟨-, -, lanes⟩ := m68kReadMemory_lanes hn h
  obtain ⟨u, hbyte⟩ := lanes k hk
  rw [← byteValue_readEffects s (lane_not_mem_drop w a hk), byteValue, hbyte]
  rfl

/-- The registers that a read clears. -/
def clearedByRead : List UInt32 := [0x810003, 0x810009, 0x81000b]

/-- A read whose lanes avoid these registers changes nothing. -/
theorem readEffects_of_disjoint (s : Machine n) {as : List UInt32}
    (h : ∀ r ∈ clearedByRead, r ∉ as) : readEffects s as = s := by
  simp only [clearedByRead, List.forall_mem_cons] at h
  rw [readEffects_eq, if_neg h.1, if_neg h.2.1, if_neg h.2.2.1]

/-- **Wide reads do not depend on the evaluation order.** Whatever the order of its byte
reads, a read of any width at any address returns the same value and leaves the same state.
A byte read returns a byte, so the lanes do not overlap, and a read changes the state only if
one of the three registers that are cleared by reading is among its lanes. -/
theorem read_order_irrelevant (w : Width) (s : Machine ramSize) (address : UInt32) :
    (∀ order : List UInt32, order.Perm (laneAddresses w address) →
      readInOrder w order s address = m68kReadMemory w s address) ∧
    (∀ a v t, m68kReadMemory8 s a = some (v, t) → v.toNat < 256) ∧
    ∀ v t, m68kReadMemory w s address = some (v, t) →
      (∀ k < w.lanes,
        byteValue s (address + UInt32.ofNat k) = some (laneByte w v k).toUInt32) ∧
      ((∀ r ∈ clearedByRead, r ∉ laneAddresses w address) → t = s) := by
  have hn : ramSize ≤ 0x400000 := soundRamSize_ramSize.upper
  refine ⟨?_, ?_, ?_⟩
  · intro order perm
    exact readInOrder_eq hn w perm s
  · intro a v t h
    exact m68kReadMemory8_lt h
  · intro v t h
    constructor
    · intro k hk
      exact m68kReadMemory_bytes hn h hk
    · intro disjoint
      obtain ⟨heffect, -, -⟩ := m68kReadMemory_lanes hn h
      rw [heffect, readEffects_of_disjoint s disjoint]

end Kyacopycat
