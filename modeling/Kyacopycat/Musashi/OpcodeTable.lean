import Kyacopycat.Lib.BitField
import Kyacopycat.Lib.BitPattern
import Kyacopycat.Lib.CArray
import Mathlib.Data.List.Pairwise

/-!
The opcode tables: `m68ki_build_opcode_table`.

The handler table lists bit patterns with few fixed bits first. The builder goes through it once,
and in seven loops: the first tries every opcode, the others know the mask of their entries and
write the opcodes that it leaves open directly. An entry with a mask that no loop is for would end
the building early, and a table without the mask `0xff00` is left at its end.

* `whileLoop_eq`: a loop that knows its mask writes what trying every opcode would write.
* `buildOpcodeTable_exact`: every opcode gets the last entry that matches it.
-/

namespace Kyacopycat

variable {α : Type}

/-! ### The handler table -/

/-- `opcode_handler_struct`: a handler, the pattern of its opcodes and the cycles it takes on each
of the five types of CPU. -/
structure OpcodeHandler (α : Type) where
  opcodeHandler : α
  pattern : BitPattern
  cycles : Fin 5 → UInt8

/-- The opcode tables. -/
structure OpcodeTables (α : Type) where
  jumpTable : CArray α 0x10000
  cycles : Fin 5 → CArray UInt8 0x10000

/-- One opcode is given a handler and its cycles. -/
def OpcodeTables.put (t : OpcodeTables α) (e : OpcodeHandler α) (instr : Nat) :
    Option (OpcodeTables α) := do
  let jumpTable ← t.jumpTable.store instr e.opcodeHandler
  return { jumpTable, cycles := fun k => (t.cycles k).set instr (e.cycles k) }

/-- The opcodes for which the first loop finds that the entry matches. -/
def matchingInstrs (e : OpcodeHandler α) : List Nat :=
  (List.range 0x10000).filter fun i => decide (i &&& e.pattern.mask = e.pattern.value)

/-- The masks of the other loops, with what each of them puts in for the bits left open. -/
def maskGroups : List (Nat × List Nat) := [
  (0xff00, List.range 0x100),
  (0xf1f8, (List.range 8).flatMap fun i => (List.range 8).map fun j => (i <<< 9) ||| j),
  (0xfff0, List.range 0x10),
  (0xf1ff, (List.range 8).map fun i => i <<< 9),
  (0xfff8, List.range 8),
  (0xffff, [0])]

/-- A loop over the entries as long as their masks satisfy `p`; none when it leaves the table. -/
def whileLoop (p : Nat → Bool) (instrs : OpcodeHandler α → List Nat) :
    OpcodeTables α → List (OpcodeHandler α) → Option (OpcodeTables α × List (OpcodeHandler α))
  | _, [] => none
  | t, e :: es =>
    if p e.pattern.mask then do
      let t ← (instrs e).foldlM (fun t instr => t.put e instr) t
      whileLoop p instrs t es
    else some (t, e :: es)

/-- The loop of a mask. -/
def groupLoop (s : OpcodeTables α × List (OpcodeHandler α)) (g : Nat × List Nat) :
    Option (OpcodeTables α × List (OpcodeHandler α)) :=
  whileLoop (· == g.1) (fun e => g.2.map fun free => e.pattern.value ||| free) s.1 s.2

/-- The entry after the last one. -/
def terminator (null : α) : OpcodeHandler α := ⟨null, ⟨0, 0⟩, fun _ => 0⟩

/-- `m68ki_build_opcode_table`, for a table with its terminator. -/
def buildOpcodeTable (illegal : α) (table : List (OpcodeHandler α)) :
    Option (OpcodeTables α) := do
  let s ← whileLoop (· != 0xff00) matchingInstrs ⟨CArray.fill illegal, fun _ => CArray.fill 0⟩ table
  let (t, _) ← maskGroups.foldlM groupLoop s
  return t

/-! ### Writing an entry -/

/-- The handler of an opcode and its cycles. -/
def OpcodeTables.lookup (t : OpcodeTables α) (x : Fin 0x10000) : α × (Fin 5 → UInt8) :=
  (t.jumpTable x, fun k => t.cycles k x)

def OpcodeHandler.entry (e : OpcodeHandler α) : α × (Fin 5 → UInt8) := (e.opcodeHandler, e.cycles)

theorem OpcodeTables.put_eq (t : OpcodeTables α) (e : OpcodeHandler α) {i : Nat}
    (h : i < 0x10000) :
    ∃ t', t.put e i = some t' ∧
      ∀ x, t'.lookup x = if x.val = i then e.entry else t.lookup x := by
  refine ⟨_, Option.bind_eq_some_iff.mpr ⟨_, CArray.store_of_lt _ h _, rfl⟩, fun x => ?_⟩
  simp only [lookup, CArray.set_apply, OpcodeHandler.entry]
  split <;> rfl

/-- An entry is written for a list of opcodes. -/
theorem OpcodeTables.foldlM_put (t : OpcodeTables α) (e : OpcodeHandler α) {is : List Nat}
    (h : ∀ i ∈ is, i < 0x10000) :
    ∃ t', is.foldlM (fun t instr => t.put e instr) t = some t' ∧
      ∀ x, t'.lookup x = if x.val ∈ is then e.entry else t.lookup x := by
  induction is generalizing t with
  | nil => exact ⟨t, rfl, fun x => (if_neg List.not_mem_nil).symm⟩
  | cons i is ih =>
    obtain ⟨hi, his⟩ := List.forall_mem_cons.mp h
    obtain ⟨t₁, hput, hlookup₁⟩ := t.put_eq e hi
    obtain ⟨t', hfold, hlookup⟩ := ih t₁ his
    refine ⟨t', by rw [List.foldlM_cons, hput]; exact hfold, fun x => ?_⟩
    rw [hlookup, hlookup₁]
    by_cases hx : x.val = i <;> by_cases hmem : x.val ∈ is <;> simp [hx, hmem]

/-! ### The loops -/

/-- The entry's pattern is one of sixteen bits. -/
structure OpcodeHandler.Fits (e : OpcodeHandler α) : Prop where
  within : e.pattern.Within
  value_lt : e.pattern.value < 0x10000

/-- The opcodes that a loop writes for an entry are the ones that match it. -/
def WritesMatching (instrs : OpcodeHandler α → List Nat) (e : OpcodeHandler α) : Prop :=
  ∀ x, x ∈ instrs e ↔ x < 0x10000 ∧ e.pattern.Matches x

theorem matchingInstrs_writes (e : OpcodeHandler α) : WritesMatching matchingInstrs e := by
  intro x
  rw [matchingInstrs, List.mem_filter, List.mem_range, decide_eq_true_iff]
  rfl

/-- A mask of the upper bits leaves the lower ones open. -/
theorem lt_iff_and_mask {lo hi mask : Nat} (f k w : Nat) (hlo : lo = 2 ^ k)
    (hhi : hi = 2 ^ (w + k)) (hmask : mask = (2 ^ w - 1) * 2 ^ k + 0) :
    f < lo ↔ f < hi ∧ f &&& mask = 0 := by
  subst hlo hhi hmask
  rw [BitField.and_field f k w (Nat.two_pow_pos k), Nat.and_zero, Nat.add_zero,
    Nat.mul_eq_zero, or_iff_left (Nat.two_pow_pos k).ne', Nat.pow_add]
  constructor
  · intro h
    refine ⟨Nat.lt_of_lt_of_le h (Nat.le_mul_of_pos_left _ (Nat.two_pow_pos w)), ?_⟩
    rw [Nat.div_eq_of_lt h, Nat.zero_mod]
  · rintro ⟨hlt, hdiv⟩
    have hquot : f / 2 ^ k < 2 ^ w := Nat.div_lt_of_lt_mul (by rwa [Nat.mul_comm])
    rw [Nat.mod_eq_of_lt hquot] at hdiv
    exact (Nat.div_eq_zero_iff_lt (Nat.two_pow_pos k)).mp hdiv

/-- The fields that a mask leaves open are the ones that its loop puts in. -/
theorem mem_maskGroups {g : Nat × List Nat} (hg : g ∈ maskGroups) (f : Nat) :
    f ∈ g.2 ↔ f < 0x10000 ∧ f &&& g.1 = 0 := by
  -- the register field in bits 9 to 11 is open in two of the masks
  have hreg : ∀ r < 2 ^ 12, f &&& ((2 ^ 4 - 1) * 2 ^ 12 + r) = 0 ↔
      f / 4096 % 16 = 0 ∧ f &&& r = 0 := by
    intro r hr
    rw [BitField.and_field f 12 4 hr]
    omega
  have hlow : ∀ k w, f &&& ((2 ^ w - 1) * 2 ^ k + 0) = f / 2 ^ k % 2 ^ w * 2 ^ k := by
    intro k w
    rw [BitField.and_field f k w (Nat.two_pow_pos k), Nat.and_zero, Nat.add_zero]
  simp only [maskGroups, List.mem_cons, List.not_mem_nil, or_false] at hg
  rcases hg with rfl | rfl | rfl | rfl | rfl | rfl
  · dsimp only
    exact List.mem_range.trans (lt_iff_and_mask f 8 8 (by decide) (by decide) (by decide))
  · have hmask := (hreg ((2 ^ 6 - 1) * 2 ^ 3 + 0) (by decide)).trans
      (and_congr_right' (by rw [hlow]))
    refine Iff.trans ?_ (and_congr_right' hmask).symm
    simp only [List.mem_flatMap, List.mem_map, List.mem_range]
    constructor
    · rintro ⟨i, hi, j, hj, rfl⟩
      rw [← Nat.shiftLeft_add_eq_or_of_lt (by omega : j < 2 ^ 9), Nat.shiftLeft_eq]
      omega
    · rintro ⟨hlt, hhigh, hmid⟩
      refine ⟨f / 512, by omega, f % 512, by omega, ?_⟩
      rw [← Nat.shiftLeft_add_eq_or_of_lt (by omega : f % 512 < 2 ^ 9), Nat.shiftLeft_eq]
      omega
  · dsimp only
    exact List.mem_range.trans (lt_iff_and_mask f 4 12 (by decide) (by decide) (by decide))
  · have hmask := (hreg ((2 ^ 9 - 1) * 2 ^ 0 + 0) (by decide)).trans
      (and_congr_right' (by rw [hlow]))
    refine Iff.trans ?_ (and_congr_right' hmask).symm
    simp only [List.mem_map, List.mem_range, Nat.shiftLeft_eq]
    constructor
    · rintro ⟨i, hi, rfl⟩
      omega
    · rintro ⟨hlt, hhigh, hmid⟩
      exact ⟨f / 512, by omega, by omega⟩
  · dsimp only
    exact List.mem_range.trans (lt_iff_and_mask f 3 13 (by decide) (by decide) (by decide))
  · rw [List.mem_singleton, ← Nat.lt_one_iff]
    exact lt_iff_and_mask f 0 16 (by decide) (by decide) (by decide)

theorem groupInstrs_writes {g : Nat × List Nat} (hg : g ∈ maskGroups) {e : OpcodeHandler α}
    (fits : e.Fits) (hmask : e.pattern.mask = g.1) :
    WritesMatching (fun e => g.2.map fun free => e.pattern.value ||| free) e := by
  intro x
  rw [List.mem_map]
  constructor
  · rintro ⟨f, hf, rfl⟩
    obtain ⟨hlt, hfree⟩ := (mem_maskGroups hg f).mp hf
    exact ⟨Nat.or_lt_two_pow (n := 16) fits.value_lt hlt,
      fits.within.matches_or (hmask ▸ hfree)⟩
  · rintro ⟨hx, hmatch⟩
    obtain ⟨f, ⟨hlt, hfree⟩, hor⟩ :=
      (BitPattern.matches_iff_exists fits.within (k := 16) hx).mp hmatch
    exact ⟨f, (mem_maskGroups hg f).mpr ⟨hlt, hmask ▸ hfree⟩, hor⟩

/-- What the tables hold of an opcode when `es` have been written over `start`. -/
def dispatch (start : α × (Fin 5 → UInt8)) (es : List (OpcodeHandler α)) (x : Nat) :
    α × (Fin 5 → UInt8) :=
  ((BitPattern.lastMatch (fun e => decide (e.pattern.Matches x)) es).map
    OpcodeHandler.entry).getD start

theorem dispatch_append (start : α × (Fin 5 → UInt8)) (es es' : List (OpcodeHandler α)) (x : Nat) :
    dispatch start (es ++ es') x = dispatch (dispatch start es x) es' x := by
  rw [dispatch, dispatch, dispatch, BitPattern.lastMatch_append]
  cases BitPattern.lastMatch (fun e => decide (e.pattern.Matches x)) es' <;> rfl

theorem dispatch_singleton (start : α × (Fin 5 → UInt8)) (e : OpcodeHandler α) (x : Nat) :
    dispatch start [e] x = if e.pattern.Matches x then e.entry else start := by
  by_cases h : e.pattern.Matches x <;> simp [dispatch, BitPattern.lastMatch, h]

/-- **A loop of the builder.** It goes through the entries whose masks satisfy its condition and
writes each for the opcodes that match it, until it finds another one. -/
theorem whileLoop_eq {p : Nat → Bool} {instrs : OpcodeHandler α → List Nat}
    {es : List (OpcodeHandler α)} (loop : ∀ e ∈ es, p e.pattern.mask = true)
    (writes : ∀ e ∈ es, WritesMatching instrs e) {e : OpcodeHandler α}
    (stop : p e.pattern.mask = false) (rest : List (OpcodeHandler α)) (t : OpcodeTables α) :
    ∃ t', whileLoop p instrs t (es ++ e :: rest) = some (t', e :: rest) ∧
      ∀ x, t'.lookup x = dispatch (t.lookup x) es x := by
  induction es generalizing t with
  | nil =>
    refine ⟨t, ?_, fun x => rfl⟩
    rw [List.nil_append, whileLoop, if_neg (by rw [stop]; decide)]
  | cons d es ih =>
    obtain ⟨hd, loop⟩ := List.forall_mem_cons.mp loop
    obtain ⟨writesHere, writes⟩ := List.forall_mem_cons.mp writes
    obtain ⟨t₁, hput, hlookup₁⟩ := t.foldlM_put d fun i hi => ((writesHere i).mp hi).1
    obtain ⟨t', hloop, hlookup⟩ := ih loop writes t₁
    refine ⟨t', ?_, fun x => ?_⟩
    · rw [List.cons_append, whileLoop, if_pos hd]
      exact Option.bind_eq_some_iff.mpr ⟨t₁, hput, hloop⟩
    · have hmem : x.val ∈ instrs d ↔ d.pattern.Matches x.val :=
        (writesHere x.val).trans (and_iff_right x.isLt)
      rw [hlookup, hlookup₁, ← List.singleton_append, dispatch_append, dispatch_singleton,
        if_congr hmem rfl rfl]

/-! ### The builder -/

/-- The entries that the loops for `gs` go through: for each mask in turn, the entries with it. -/
def Grouped : List (Nat × List Nat) → List (OpcodeHandler α) → Prop
  | [], es => es = []
  | g :: gs, es => ∃ as bs, es = as ++ bs ∧ (∀ e ∈ as, e.pattern.mask = g.1) ∧
      (∀ e ∈ bs, e.pattern.mask ≠ g.1) ∧ Grouped gs bs

/-- The loops for masks go through a table that is grouped by them. -/
theorem groupLoops_eq {gs : List (Nat × List Nat)} (hgs : ∀ g ∈ gs, g ∈ maskGroups)
    {es : List (OpcodeHandler α)} (grouped : Grouped gs es) (fits : ∀ e ∈ es, e.Fits)
    (null : α) (t : OpcodeTables α) :
    ∃ t', gs.foldlM groupLoop (t, es ++ [terminator null]) = some (t', [terminator null]) ∧
      ∀ x, t'.lookup x = dispatch (t.lookup x) es x := by
  induction gs generalizing es t with
  | nil =>
    obtain rfl := grouped
    exact ⟨t, rfl, fun x => rfl⟩
  | cons g gs ih =>
    obtain ⟨hg, hgs⟩ := List.forall_mem_cons.mp hgs
    obtain ⟨as, bs, rfl, has, hbs, grouped⟩ := grouped
    obtain ⟨fitsA, fitsB⟩ := List.forall_mem_append.mp fits
    -- the loop stops at the first of the others, or at the end of the table
    have hzero : (0 : Nat) ≠ g.1 := by
      simp only [maskGroups, List.mem_cons, List.not_mem_nil, or_false] at hg
      rcases hg with rfl | rfl | rfl | rfl | rfl | rfl <;> decide
    obtain ⟨e, rest, hrest, hstop⟩ : ∃ e rest, bs ++ [terminator null] = e :: rest ∧
        (e.pattern.mask == g.1) = false := by
      cases bs with
      | nil => exact ⟨_, [], rfl, beq_eq_false_iff_ne.mpr hzero⟩
      | cons b bs => exact ⟨b, _, rfl, beq_eq_false_iff_ne.mpr (hbs b List.mem_cons_self)⟩
    obtain ⟨t₁, hloop, hlookup₁⟩ := whileLoop_eq (p := (· == g.1))
      (fun e he => beq_iff_eq.mpr (has e he))
      (fun e he => groupInstrs_writes hg (fitsA e he) (has e he)) hstop rest t
    obtain ⟨t', hfold, hlookup⟩ := ih hgs grouped fitsB t₁
    refine ⟨t', ?_, fun x => ?_⟩
    · rw [List.foldlM_cons, List.append_assoc, hrest]
      refine Option.bind_eq_some_iff.mpr ⟨_, hloop, ?_⟩
      rwa [← hrest]
    · rw [hlookup, hlookup₁, dispatch_append]

/-- The table is in the order in which the loops expect the masks, with the mask `0xff00`
present. -/
def InLoopOrder (table : List (OpcodeHandler α)) : Prop :=
  ∃ as bs, table = as ++ bs ∧ (∀ e ∈ as, e.pattern.mask ≠ 0xff00) ∧
    (∃ b ∈ bs.head?, b.pattern.mask = 0xff00) ∧ Grouped maskGroups bs

/-- **The builder.** From a table in the order of its loops it gives every opcode the handler and
the cycles of the last entry that matches it, and the illegal handler to an opcode that no entry
matches. -/
theorem buildOpcodeTable_exact (illegal null : α) {table : List (OpcodeHandler α)}
    (order : InLoopOrder table) (fits : ∀ e ∈ table, e.Fits) :
    ∃ t, buildOpcodeTable illegal (table ++ [terminator null]) = some t ∧
      ∀ x, t.lookup x = dispatch (illegal, fun _ => 0) table x := by
  obtain ⟨as, bs, rfl, has, ⟨b, hb, hmask⟩, grouped⟩ := order
  obtain ⟨fitsA, fitsB⟩ := List.forall_mem_append.mp fits
  obtain ⟨rest, rfl⟩ : ∃ rest, bs = b :: rest := by
    cases bs with
    | nil => cases hb
    | cons b' bs => exact ⟨bs, by rw [Option.mem_some.mp hb]⟩
  obtain ⟨t₁, hloop, hlookup₁⟩ := whileLoop_eq (p := (· != 0xff00))
    (fun e he => bne_iff_ne.mpr (has e he)) (fun e _ => matchingInstrs_writes e)
    (bne_eq_false_iff_eq.mpr hmask) (rest ++ [terminator null])
    ⟨CArray.fill illegal, fun _ => CArray.fill 0⟩
  obtain ⟨t, hgroups, hlookup⟩ := groupLoops_eq (fun g hg => hg) grouped fitsB null t₁
  refine ⟨t, ?_, fun x => ?_⟩
  · rw [List.append_assoc]
    exact Option.bind_eq_some_iff.mpr ⟨_, hloop, Option.bind_eq_some_iff.mpr ⟨_, hgroups, rfl⟩⟩
  · rw [hlookup, hlookup₁, dispatch_append]
    rfl

/-- The entries of BRA with a byte displacement and of NOP. -/
def branchAndNop : List (OpcodeHandler String) :=
  [⟨"m68k_op_bra_8", ⟨0xff00, 0x6000⟩, fun _ => 10⟩, ⟨"m68k_op_nop", ⟨0xffff, 0x4e71⟩, fun _ => 4⟩]

theorem branchAndNop_inLoopOrder : InLoopOrder branchAndNop := by
  have last : Grouped maskGroups.tail branchAndNop.tail := by
    exact ⟨[], _, rfl, by simp, by decide, [], _, rfl, by simp, by decide, [], _, rfl, by simp,
      by decide, [], _, rfl, by simp, by decide, branchAndNop.tail, [], rfl, by decide, by simp,
      rfl⟩
  exact ⟨[], _, rfl, by simp, ⟨_, rfl, rfl⟩, [_], _, rfl, by decide, by decide, last⟩

theorem buildOpcodeTable_exact_branchAndNop :
    ∃ t, buildOpcodeTable "m68k_op_illegal" (branchAndNop ++ [terminator ""]) = some t ∧
      t.lookup 0x60fe = ("m68k_op_bra_8", fun _ => 10) := by
  have fits : ∀ e ∈ branchAndNop, e.Fits := by
    intro e he
    simp only [branchAndNop, List.mem_cons, List.not_mem_nil, or_false] at he
    rcases he with rfl | rfl
    · exact ⟨by decide, by decide⟩
    · exact ⟨by decide, by decide⟩
  obtain ⟨t, hbuild, hlookup⟩ :=
    buildOpcodeTable_exact "m68k_op_illegal" "" branchAndNop_inLoopOrder fits
  exact ⟨t, hbuild, hlookup 0x60fe⟩

/-- Without the mask `0xff00` the first loop leaves the table. -/
theorem buildOpcodeTable_eq_none (illegal : α) {table : List (OpcodeHandler α)}
    (absent : ∀ e ∈ table, e.pattern.mask ≠ 0xff00) : buildOpcodeTable illegal table = none := by
  refine Option.bind_eq_none_iff.mpr fun s hs => ?_
  suffices hnone : ∀ t, whileLoop (· != 0xff00) matchingInstrs t table = none by
    rw [hnone] at hs
    cases hs
  clear hs s
  induction table with
  | nil => exact fun t => rfl
  | cons e es ih =>
    intro t
    obtain ⟨he, hes⟩ := List.forall_mem_cons.mp absent
    rw [whileLoop, if_pos (bne_iff_ne.mpr he)]
    exact Option.bind_eq_none_iff.mpr fun t' _ => ih hes t'

end Kyacopycat
