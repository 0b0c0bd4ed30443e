import Kyacopycat.Musashi.OpcodeTable

/-!
The generator of the handler table: `m68kmake.c`.

A line of the opcode list becomes one handler for each condition and each addressing mode it
allows. The entries are sorted by the number of bits they fix, so that the builder of the opcode
tables, for which the last match counts, prefers the most specific one.

* `processOpcodeHandlers_ok_iff`: when the output table is large enough.
* `accepts_iff`: the handlers of a line match the opcodes that the line allows.
* `inLoopOrder_of_sorted`: the sorted table is in the order of the builder's loops.
* `decoder_exact`: what the tables hold of every opcode.
-/

namespace Kyacopycat

/-! ### Addressing modes -/

/-- `EA_MODE_NONE` to `EA_MODE_I`. -/
inductive EaMode where
  | none
  | ai
  | pi
  | pi7
  | pd
  | pd7
  | di
  | ix
  | aw
  | al
  | pcdi
  | pcix
  | i
  deriving DecidableEq, Repr

/-- `mask_add` and `match_add` of `g_ea_info_table`. -/
def EaMode.pattern : EaMode → BitPattern
  | .none => ⟨0x00, 0x00⟩
  | .ai => ⟨0x38, 0x10⟩
  | .pi => ⟨0x38, 0x18⟩
  | .pi7 => ⟨0x3f, 0x1f⟩
  | .pd => ⟨0x38, 0x20⟩
  | .pd7 => ⟨0x3f, 0x27⟩
  | .di => ⟨0x38, 0x28⟩
  | .ix => ⟨0x38, 0x30⟩
  | .aw => ⟨0x3f, 0x38⟩
  | .al => ⟨0x3f, 0x39⟩
  | .pcdi => ⟨0x3f, 0x3a⟩
  | .pcix => ⟨0x3f, 0x3b⟩
  | .i => ⟨0x3f, 0x3c⟩

/-- `fname_add` of `g_ea_info_table`. -/
def EaMode.fnameAdd : EaMode → String
  | .none => ""
  | .ai => "ai"
  | .pi => "pi"
  | .pi7 => "pi7"
  | .pd => "pd"
  | .pd7 => "pd7"
  | .di => "di"
  | .ix => "ix"
  | .aw => "aw"
  | .al => "al"
  | .pcdi => "pcdi"
  | .pcix => "pcix"
  | .i => "i"

/-! ### The opcode list -/

/-- `opcode_struct`. The column of the allowed addressing modes is the list of them, empty for
`..........`, and `cycles` is what `get_oper_cycles` makes of the line for each mode. -/
structure OpcodeStruct where
  name : String
  size : Nat
  specProc : String
  specEa : String
  pattern : BitPattern
  eaAllowed : List EaMode
  cycles : EaMode → Fin 5 → UInt8

/-- `num_bits`. -/
def numBits (value : Nat) : Nat :=
  let value := ((value &&& 0xaaaa) >>> 1) + (value &&& 0x5555)
  let value := ((value &&& 0xcccc) >>> 2) + (value &&& 0x3333)
  let value := ((value &&& 0xf0f0) >>> 4) + (value &&& 0x0f0f)
  ((value &&& 0xff00) >>> 8) + (value &&& 0x00ff)

/-- `get_base_name`. -/
def getBaseName (op : OpcodeStruct) : String :=
  "m68k_op_" ++ op.name
    ++ (if op.size > 0 then "_" ++ toString op.size else "")
    ++ (if op.specProc ≠ "." then "_" ++ op.specProc else "")
    ++ (if op.specEa ≠ "." then "_" ++ op.specEa else "")

/-- `set_opcode_struct`. -/
def setOpcodeStruct (op : OpcodeStruct) (eaMode : EaMode) : OpcodeStruct :=
  { op with
    specEa := if op.specEa = "." ∧ eaMode ≠ .none then eaMode.fnameAdd else op.specEa
    pattern := op.pattern.union eaMode.pattern }

/-- The entry that `generate_opcode_handler` adds to the output table. -/
def outputEntry (op : OpcodeStruct) (eaMode : EaMode) : OpcodeHandler String where
  opcodeHandler := getBaseName (setOpcodeStruct op eaMode)
  pattern := (setOpcodeStruct op eaMode).pattern
  cycles := op.cycles eaMode

/-! ### The output table -/

/-- `MAX_OPCODE_OUTPUT_TABLE_LENGTH`. -/
abbrev maxOpcodeOutputTableLength : Nat := 3000

/-- `MAX_NAME_LENGTH`. -/
abbrev maxNameLength : Nat := 30

/-- How an entry may not fit: it is written behind the end of an array, or the generator exits
with an opcode output table overflow. -/
inductive OutputFault where
  | outOfBounds
  | overflow
  deriving DecidableEq, Repr

/-- `add_opcode_output_table_entry`. The name needs a place for the null behind it. -/
def addOpcodeOutputTableEntry (table : List (OpcodeHandler String)) (e : OpcodeHandler String) :
    Except OutputFault (List (OpcodeHandler String)) :=
  if table.length > maxOpcodeOutputTableLength then .error .overflow
  -- the check above lets the entry behind the last one through
  else if table.length < maxOpcodeOutputTableLength
      ∧ e.opcodeHandler.utf8ByteSize < maxNameLength then .ok (table ++ [e])
  else .error .outOfBounds

/-- `generate_opcode_handler`. -/
def generateOpcodeHandler (op : OpcodeStruct) (table : List (OpcodeHandler String))
    (eaMode : EaMode) : Except OutputFault (List (OpcodeHandler String)) :=
  addOpcodeOutputTableEntry table (outputEntry op eaMode)

/-- The modes for which `generate_opcode_ea_variants` generates a handler: in byte operations the
stack pointer has handlers of its own. -/
def eaModes (op : OpcodeStruct) : List EaMode :=
  if op.eaAllowed = [] then [.none]
  else
    (if .ai ∈ op.eaAllowed then [EaMode.ai] else [])
      ++ (if .pi ∈ op.eaAllowed then .pi :: if op.size = 8 then [EaMode.pi7] else [] else [])
      ++ (if .pd ∈ op.eaAllowed then .pd :: if op.size = 8 then [EaMode.pd7] else [] else [])
      ++ (if .di ∈ op.eaAllowed then [EaMode.di] else [])
      ++ (if .ix ∈ op.eaAllowed then [EaMode.ix] else [])
      ++ (if .aw ∈ op.eaAllowed then [EaMode.aw] else [])
      ++ (if .al ∈ op.eaAllowed then [EaMode.al] else [])
      ++ (if .pcdi ∈ op.eaAllowed then [EaMode.pcdi] else [])
      ++ (if .pcix ∈ op.eaAllowed then [EaMode.pcix] else [])
      ++ (if .i ∈ op.eaAllowed then [EaMode.i] else [])

/-- `generate_opcode_ea_variants`. -/
def generateOpcodeEaVariants (table : List (OpcodeHandler String)) (op : OpcodeStruct) :
    Except OutputFault (List (OpcodeHandler String)) :=
  (eaModes op).foldlM (generateOpcodeHandler op) table

/-- The names of `g_cc_table`. -/
def ccTable : List String :=
  ["t", "f", "hi", "ls", "cc", "cs", "ne", "eq", "vc", "vs", "pl", "mi", "ge", "lt", "gt", "le"]

/-- A turn of the loop of `generate_opcode_cc_variants`. -/
def setCc (offset : Nat) (op : OpcodeStruct) (i : Nat) : OpcodeStruct :=
  { op with
    name := (op.name.take offset).toString ++ ccTable.getD i ""
    pattern := ⟨op.pattern.mask, (op.pattern.value &&& 0xf0ff) ||| (i <<< 8)⟩ }

/-- The lines that `generate_opcode_cc_variants` makes of one: all conditions except t and f. -/
def ccVariants (offset : Nat) (op : OpcodeStruct) : List OpcodeStruct :=
  let op := { op with pattern := ⟨op.pattern.mask ||| 0x0f00, op.pattern.value⟩ }
  ((List.range' 2 14).foldl (fun (op, ops) i =>
    let op := setCc offset op i
    (op, ops ++ [op])) (op, [])).2

/-- The lines that `process_opcode_handlers` generates addressing modes for. -/
def variants (op : OpcodeStruct) : List OpcodeStruct :=
  if op.name = "bcc" ∨ op.name = "scc" then ccVariants 1 op
  else if op.name = "dbcc" then ccVariants 2 op
  else if op.name = "trapcc" then ccVariants 4 op
  else [op]

/-- `process_opcode_handlers`, for the lines of the handlers in the file. -/
def processOpcodeHandlers (ops : List OpcodeStruct) :
    Except OutputFault (List (OpcodeHandler String)) :=
  (ops.flatMap variants).foldlM generateOpcodeEaVariants []

/-- `compare_nof_true_bits`. -/
def compareNofTrueBits {α : Type} (a b : OpcodeHandler α) : Int :=
  if numBits a.pattern.mask ≠ numBits b.pattern.mask then
    numBits a.pattern.mask - numBits b.pattern.mask
  else if a.pattern.mask ≠ b.pattern.mask then a.pattern.mask - b.pattern.mask
  else a.pattern.value - b.pattern.value

/-- A table that `qsort` may have made of the output. -/
structure SortedFrom (out table : List (OpcodeHandler String)) : Prop where
  perm : table.Perm out
  sorted : table.Pairwise fun a b => compareNofTrueBits a b ≤ 0

/-! ### What the generator puts out -/

/-- The entries for some lines. -/
def outputEntries (ops : List OpcodeStruct) : List (OpcodeHandler String) :=
  (ops.flatMap variants).flatMap fun op => (eaModes op).map (outputEntry op)

/-- The entry fits into the name of an `opcode_struct`. -/
def OpcodeHandler.NameFits (e : OpcodeHandler String) : Prop :=
  e.opcodeHandler.utf8ByteSize < maxNameLength

instance (e : OpcodeHandler String) : Decidable e.NameFits := by
  unfold OpcodeHandler.NameFits; infer_instance

theorem addOpcodeOutputTableEntry_ok_iff {table out : List (OpcodeHandler String)}
    {e : OpcodeHandler String} : addOpcodeOutputTableEntry table e = .ok out ↔
      out = table ++ [e] ∧ out.length ≤ maxOpcodeOutputTableLength ∧ e.NameFits := by
  have hlength : (table ++ [e]).length = table.length + 1 := by simp
  unfold addOpcodeOutputTableEntry OpcodeHandler.NameFits
  constructor
  · intro h
    split_ifs at h with full fits
    cases h
    exact ⟨rfl, by omega, fits.2⟩
  · rintro ⟨rfl, hle, name⟩
    rw [if_neg (by omega), if_pos ⟨by omega, name⟩]

theorem addEntries_ok_iff {es table out : List (OpcodeHandler String)}
    (room : table.length ≤ maxOpcodeOutputTableLength) :
    es.foldlM addOpcodeOutputTableEntry table = .ok out ↔
      out = table ++ es ∧ out.length ≤ maxOpcodeOutputTableLength ∧ ∀ e ∈ es, e.NameFits := by
  induction es generalizing table with
  | nil =>
    rw [List.foldlM_nil, List.append_nil]
    constructor
    · rintro ⟨⟩
      exact ⟨rfl, room, fun e he => absurd he List.not_mem_nil⟩
    · rintro ⟨rfl, -, -⟩
      rfl
  | cons e es ih =>
    have hlength : (table ++ [e]).length = table.length + 1 := by simp
    rw [List.foldlM_cons, List.forall_mem_cons, List.append_cons]
    cases hadd : addOpcodeOutputTableEntry table e with
    | ok table' =>
      obtain ⟨rfl, room', name⟩ := addOpcodeOutputTableEntry_ok_iff.mp hadd
      refine (ih room').trans ?_
      rw [and_iff_right name]
    | error fault =>
      refine iff_of_false (by intro h; cases h) ?_
      rintro ⟨rfl, hle, name, -⟩
      rw [List.length_append] at hle
      have hok := addOpcodeOutputTableEntry_ok_iff.mpr
        ⟨rfl, Nat.le_trans (Nat.le_add_right _ _) hle, name⟩
      rw [hadd] at hok
      cases hok

/-- The check for an overflow comes too late to be reached. -/
theorem addEntries_error {es table : List (OpcodeHandler String)} {fault : OutputFault}
    (room : table.length ≤ maxOpcodeOutputTableLength)
    (h : es.foldlM addOpcodeOutputTableEntry table = .error fault) : fault = .outOfBounds := by
  induction es generalizing table with
  | nil => cases h
  | cons e es ih =>
    rw [List.foldlM_cons] at h
    cases hadd : addOpcodeOutputTableEntry table e with
    | ok table' =>
      rw [hadd] at h
      obtain ⟨-, room', -⟩ := addOpcodeOutputTableEntry_ok_iff.mp hadd
      exact ih room' h
    | error fault' =>
      rw [hadd] at h
      cases h
      unfold addOpcodeOutputTableEntry at hadd
      rw [if_neg (Nat.not_lt.mpr room)] at hadd
      split_ifs at hadd
      cases hadd
      rfl

theorem foldlM_flatMap {m : Type → Type} [Monad m] [LawfulMonad m] {α β γ : Type}
    (f : γ → β → m γ) (g : α → List β) (xs : List α) (init : γ) :
    (xs.flatMap g).foldlM f init = xs.foldlM (fun c x => (g x).foldlM f c) init := by
  induction xs generalizing init with
  | nil => rfl
  | cons x xs ih =>
    rw [List.flatMap_cons, List.foldlM_append, List.foldlM_cons]
    exact bind_congr fun c => ih c

theorem processOpcodeHandlers_eq (ops : List OpcodeStruct) : processOpcodeHandlers ops
    = (outputEntries ops).foldlM addOpcodeOutputTableEntry [] := by
  have variant : generateOpcodeEaVariants = fun table op =>
      ((eaModes op).map (outputEntry op)).foldlM addOpcodeOutputTableEntry table := by
    funext table op
    exact (List.foldlM_map (f := outputEntry op) (g := addOpcodeOutputTableEntry)).symm
  rw [processOpcodeHandlers, variant]
  exact (foldlM_flatMap addOpcodeOutputTableEntry _ (ops.flatMap variants) []).symm

/-- The generator puts out the entries of its lines when there are at most as many as the table
holds and their names fit. -/
theorem processOpcodeHandlers_ok_iff {ops : List OpcodeStruct}
    {out : List (OpcodeHandler String)} : processOpcodeHandlers ops = .ok out ↔
      out = outputEntries ops ∧ out.length ≤ maxOpcodeOutputTableLength ∧
        ∀ e ∈ out, e.NameFits := by
  rw [processOpcodeHandlers_eq, addEntries_ok_iff (Nat.zero_le _), List.nil_append]
  exact and_congr_right fun h => by rw [h]

/-- Otherwise it writes behind the end of an array. -/
theorem processOpcodeHandlers_error {ops : List OpcodeStruct} {fault : OutputFault}
    (h : processOpcodeHandlers ops = .error fault) : fault = .outOfBounds := by
  rw [processOpcodeHandlers_eq] at h
  exact addEntries_error (Nat.zero_le _) h

/-! ### What a line accepts -/

/-- The addressing mode in the low six bits of an opcode. -/
def eaField (x : Nat) : EaMode :=
  match x / 8 % 8, x % 8 with
  | 2, _ => .ai
  | 3, _ => .pi
  | 4, _ => .pd
  | 5, _ => .di
  | 6, _ => .ix
  | 7, 0 => .aw
  | 7, 1 => .al
  | 7, 2 => .pcdi
  | 7, 3 => .pcix
  | 7, 4 => .i
  | _, _ => .none

/-- The line allows the opcode. -/
def OpcodeStruct.Accepts (op : OpcodeStruct) (x : Nat) : Prop :=
  op.pattern.Matches x ∧ (op.eaAllowed = [] ∨ eaField x ∈ op.eaAllowed)

/-- The mode of the handler for an opcode that the line allows. -/
def OpcodeStruct.mode (op : OpcodeStruct) (x : Nat) : EaMode :=
  if op.eaAllowed = [] then .none
  else match eaField x with
    | .pi => if op.size = 8 ∧ x % 8 = 7 then .pi7 else .pi
    | .pd => if op.size = 8 ∧ x % 8 = 7 then .pd7 else .pd
    | m => m

/-- The masks that the builder has loops for; the first one takes any mask of few bits. -/
def SupportedMask (m : Nat) : Prop :=
  (numBits m < 8 ∧ m < 0x10000) ∨ m ∈ maskGroups.map Prod.fst

/-- A line as the list has them. With addressing modes the low six bits are open and nine or ten
others at most are fixed. -/
structure OpcodeStruct.Fits (op : OpcodeStruct) : Prop where
  within : op.pattern.Within
  value_lt : op.pattern.value < 0x10000
  plain : op.eaAllowed = [] → SupportedMask op.pattern.mask
  modes : op.eaAllowed ≠ [] → op.pattern.mask = 0xf1c0 ∨ op.pattern.mask = 0xffc0
  allowed : ∀ m ∈ op.eaAllowed, m ≠ .none ∧ m ≠ .pi7 ∧ m ≠ .pd7

instance (m : Nat) : Decidable (SupportedMask m) :=
  inferInstanceAs (Decidable ((numBits m < 8 ∧ m < 0x10000) ∨ m ∈ maskGroups.map Prod.fst))

instance (op : OpcodeStruct) : Decidable op.Fits :=
  decidable_of_iff (op.pattern.Within ∧ op.pattern.value < 0x10000 ∧
      (op.eaAllowed = [] → SupportedMask op.pattern.mask) ∧
      (op.eaAllowed ≠ [] → op.pattern.mask = 0xf1c0 ∨ op.pattern.mask = 0xffc0) ∧
      ∀ m ∈ op.eaAllowed, m ≠ .none ∧ m ≠ .pi7 ∧ m ≠ .pd7)
    ⟨fun ⟨h₁, h₂, h₃, h₄, h₅⟩ => ⟨h₁, h₂, h₃, h₄, h₅⟩,
      fun ⟨h₁, h₂, h₃, h₄, h₅⟩ => ⟨h₁, h₂, h₃, h₄, h₅⟩⟩

/-! ### The handlers of a line -/

theorem mem_eaModes {op : OpcodeStruct} (fits : op.Fits) {m : EaMode} :
    m ∈ eaModes op ↔ if op.eaAllowed = [] then m = .none else
      m ∈ op.eaAllowed ∨ (m = .pi7 ∧ .pi ∈ op.eaAllowed ∧ op.size = 8) ∨
        (m = .pd7 ∧ .pd ∈ op.eaAllowed ∧ op.size = 8) := by
  have hspecial : EaMode.none ∉ op.eaAllowed ∧ .pi7 ∉ op.eaAllowed ∧ .pd7 ∉ op.eaAllowed :=
    ⟨fun h => (fits.allowed _ h).1 rfl, fun h => (fits.allowed _ h).2.1 rfl,
      fun h => (fits.allowed _ h).2.2 rfl⟩
  obtain ⟨hnone, hpi7, hpd7⟩ := hspecial
  by_cases hempty : op.eaAllowed = []
  · rw [eaModes, if_pos hempty, if_pos hempty, List.mem_singleton]
  · rw [eaModes, if_neg hempty, if_neg hempty]
    cases m <;> simp [hnone, hpi7, hpd7]

/-- The pattern of a mode is a statement about the two fields of the low six bits. -/
theorem EaMode.matches_iff (m : EaMode) (x : Nat) : m.pattern.Matches x ↔
    match m with
    | .none => True
    | .ai => x / 8 % 8 = 2
    | .pi => x / 8 % 8 = 3
    | .pi7 => x / 8 % 8 = 3 ∧ x % 8 = 7
    | .pd => x / 8 % 8 = 4
    | .pd7 => x / 8 % 8 = 4 ∧ x % 8 = 7
    | .di => x / 8 % 8 = 5
    | .ix => x / 8 % 8 = 6
    | .aw => x / 8 % 8 = 7 ∧ x % 8 = 0
    | .al => x / 8 % 8 = 7 ∧ x % 8 = 1
    | .pcdi => x / 8 % 8 = 7 ∧ x % 8 = 2
    | .pcix => x / 8 % 8 = 7 ∧ x % 8 = 3
    | .i => x / 8 % 8 = 7 ∧ x % 8 = 4 := by
  have hmode : x &&& 0x38 = x / 8 % 8 * 8 := by
    have h := BitField.and_field x 3 3 (r := 0) (by decide)
    rwa [Nat.and_zero] at h
  have hfull : x &&& 0x3f = x % 64 := BitField.and_ones x 6
  cases m <;> simp only [EaMode.pattern, BitPattern.Matches, hmode, hfull, Nat.and_zero] <;> omega

theorem EaMode.within (m : EaMode) : m.pattern.Within := by
  cases m <;> decide

/-- The pattern of a mode lies in the bits that a line with modes leaves open. -/
theorem OpcodeStruct.Fits.disjoint {op : OpcodeStruct} (fits : op.Fits) {m : EaMode}
    (hm : m ∈ eaModes op) : op.pattern.mask &&& m.pattern.mask = 0 := by
  by_cases hempty : op.eaAllowed = []
  · rw [mem_eaModes fits, if_pos hempty] at hm
    rw [hm]
    exact Nat.and_zero _
  · rcases fits.modes hempty with hmask | hmask
    · rw [hmask]
      cases m <;> decide
    · rw [hmask]
      cases m <;> decide

/-- An opcode is matched by the handler for a mode when it is in the line's pattern and in the
mode's. -/
theorem outputEntry_matches {op : OpcodeStruct} (fits : op.Fits) {m : EaMode}
    (hm : m ∈ eaModes op) (x : Nat) : (outputEntry op m).pattern.Matches x ↔
      op.pattern.Matches x ∧ m.pattern.Matches x :=
  BitPattern.matches_union fits.within m.within (fits.disjoint hm)

/-- A mode of the list is the one in the low six bits when its pattern matches. -/
theorem eaField_eq_iff {m : EaMode} (hm : m ≠ .none ∧ m ≠ .pi7 ∧ m ≠ .pd7) (x : Nat) :
    eaField x = m ↔ m.pattern.Matches x := by
  obtain ⟨hnone, hpi7, hpd7⟩ := hm
  rw [EaMode.matches_iff, eaField]
  split <;> cases m <;> simp_all

/-- The modes whose patterns match an opcode: its own, and for the stack pointer in a byte
operation the mode without it. -/
theorem mode_cases {op : OpcodeStruct} (fits : op.Fits) {x : Nat} {m : EaMode}
    (hm : m ∈ eaModes op) (h : m.pattern.Matches x) :
    (op.eaAllowed = [] ∨ eaField x ∈ op.eaAllowed) ∧
      (m = op.mode x ∨ m = .pi ∧ op.mode x = .pi7 ∨ m = .pd ∧ op.mode x = .pd7) := by
  rw [mem_eaModes fits] at hm
  by_cases hempty : op.eaAllowed = []
  · rw [if_pos hempty] at hm
    exact ⟨.inl hempty, .inl (by rw [hm, OpcodeStruct.mode, if_pos hempty])⟩
  · rw [if_neg hempty] at hm
    rw [OpcodeStruct.mode, if_neg hempty]
    rcases hm with hmem | ⟨rfl, hmem, hsize⟩ | ⟨rfl, hmem, hsize⟩
    · have hfield := (eaField_eq_iff (fits.allowed m hmem) x).mpr h
      rw [hfield]
      refine ⟨.inr hmem, ?_⟩
      cases m with
      | pi =>
        by_cases h7 : op.size = 8 ∧ x % 8 = 7
        · exact .inr (.inl ⟨rfl, if_pos h7⟩)
        · exact .inl (if_neg h7).symm
      | pd =>
        by_cases h7 : op.size = 8 ∧ x % 8 = 7
        · exact .inr (.inr ⟨rfl, if_pos h7⟩)
        · exact .inl (if_neg h7).symm
      | none | pi7 | pd7 | ai | di | ix | aw | al | pcdi | pcix | i => exact .inl rfl
    · obtain ⟨hmode, hreg⟩ := (EaMode.matches_iff .pi7 x).mp h
      have hfield : eaField x = .pi :=
        (eaField_eq_iff (fits.allowed _ hmem) x).mpr ((EaMode.matches_iff .pi x).mpr hmode)
      rw [hfield]
      exact ⟨.inr hmem, .inl (if_pos ⟨hsize, hreg⟩).symm⟩
    · obtain ⟨hmode, hreg⟩ := (EaMode.matches_iff .pd7 x).mp h
      have hfield : eaField x = .pd :=
        (eaField_eq_iff (fits.allowed _ hmem) x).mpr ((EaMode.matches_iff .pd x).mpr hmode)
      rw [hfield]
      exact ⟨.inr hmem, .inl (if_pos ⟨hsize, hreg⟩).symm⟩

/-- The mode of an opcode that the line allows has a handler, and it matches. -/
theorem mode_mem {op : OpcodeStruct} (fits : op.Fits) {x : Nat}
    (h : op.eaAllowed = [] ∨ eaField x ∈ op.eaAllowed) :
    op.mode x ∈ eaModes op ∧ (op.mode x).pattern.Matches x := by
  rw [mem_eaModes fits]
  by_cases hempty : op.eaAllowed = []
  · rw [OpcodeStruct.mode, if_pos hempty, if_pos hempty]
    exact ⟨rfl, (EaMode.matches_iff .none x).mpr trivial⟩
  · have hmem := h.resolve_left hempty
    have hmatch := (eaField_eq_iff (fits.allowed _ hmem) x).mp rfl
    rw [OpcodeStruct.mode, if_neg hempty, if_neg hempty]
    generalize eaField x = m at hmem hmatch
    rw [EaMode.matches_iff] at hmatch
    split
    · split
      next h7 =>
        exact ⟨.inr (.inl ⟨rfl, hmem, h7.1⟩), (EaMode.matches_iff .pi7 x).mpr ⟨hmatch, h7.2⟩⟩
      next => exact ⟨.inl hmem, (EaMode.matches_iff .pi x).mpr hmatch⟩
    · split
      next h7 =>
        exact ⟨.inr (.inr ⟨rfl, hmem, h7.1⟩), (EaMode.matches_iff .pd7 x).mpr ⟨hmatch, h7.2⟩⟩
      next => exact ⟨.inl hmem, (EaMode.matches_iff .pd x).mpr hmatch⟩
    · exact ⟨.inl hmem, (EaMode.matches_iff m x).mpr hmatch⟩

instance (op : OpcodeStruct) (x : Nat) : Decidable (op.Accepts x) :=
  inferInstanceAs (Decidable (op.pattern.Matches x ∧
    (op.eaAllowed = [] ∨ eaField x ∈ op.eaAllowed)))

/-- The handlers of a line match the opcodes that the line accepts. -/
theorem accepts_iff {op : OpcodeStruct} (fits : op.Fits) (x : Nat) :
    op.Accepts x ↔ ∃ m ∈ eaModes op, (outputEntry op m).pattern.Matches x := by
  constructor
  · rintro ⟨hline, hmode⟩
    obtain ⟨hmem, hmatch⟩ := mode_mem fits hmode
    exact ⟨_, hmem, (outputEntry_matches fits hmem x).mpr ⟨hline, hmatch⟩⟩
  · rintro ⟨m, hmem, h⟩
    obtain ⟨hline, hmatch⟩ := (outputEntry_matches fits hmem x).mp h
    exact ⟨hline, (mode_cases fits hmem hmatch).1⟩

/-! ### The sorted table -/

/-- The order of the masks in the table. -/
def maskKey (m : Nat) : Nat := numBits m * 0x10000 + m

/-- A mask with loops of its own is a mask of sixteen bits, and the masks of the loops are in the
order of the table. -/
theorem maskGroups_keys :
    (maskGroups.map Prod.fst).Pairwise (maskKey · < maskKey ·) ∧
      ∀ m ∈ maskGroups.map Prod.fst, m < 0x10000 ∧ maskKey 0xff00 ≤ maskKey m := by
  decide

theorem SupportedMask.lt {m : Nat} (h : SupportedMask m) : m < 0x10000 :=
  h.elim And.right fun hm => (maskGroups_keys.2 m hm).1

theorem maskKey_le_of_compare {α : Type} {a b : OpcodeHandler α} (ha : a.pattern.mask < 0x10000)
    (h : compareNofTrueBits a b ≤ 0) : maskKey a.pattern.mask ≤ maskKey b.pattern.mask := by
  rw [compareNofTrueBits] at h
  rw [maskKey, maskKey]
  split at h
  next hbits => omega
  next hbits =>
    split at h
    · omega
    · omega

theorem compareNofTrueBits_trans {α : Type} {a b c : OpcodeHandler α}
    (h : compareNofTrueBits a b ≤ 0) (h' : compareNofTrueBits b c ≤ 0) :
    compareNofTrueBits a c ≤ 0 := by
  unfold compareNofTrueBits at *
  split_ifs at * <;> omega

theorem compareNofTrueBits_total {α : Type} (a b : OpcodeHandler α) :
    compareNofTrueBits a b ≤ 0 ∨ compareNofTrueBits b a ≤ 0 := by
  unfold compareNofTrueBits
  split_ifs <;> omega

/-- Every output can be sorted. -/
theorem exists_sortedFrom (out : List (OpcodeHandler String)) : ∃ table, SortedFrom out table := by
  let le (a b : OpcodeHandler String) : Bool := decide (compareNofTrueBits a b ≤ 0)
  have trans : ∀ a b c, le a b = true → le b c = true → le a c = true := fun a b c h h' =>
    decide_eq_true (compareNofTrueBits_trans (of_decide_eq_true h) (of_decide_eq_true h'))
  have total : ∀ a b, (le a b || le b a) = true := fun a b => by
    simpa [le] using compareNofTrueBits_total a b
  have sorted := List.pairwise_mergeSort trans total out
  exact ⟨out.mergeSort le, List.mergeSort_perm out le, sorted.imp fun h => of_decide_eq_true h⟩

theorem numBits_le_of_maskKey {m m' : Nat} (hm : m < 0x10000) (hm' : m' < 0x10000)
    (h : maskKey m ≤ maskKey m') : numBits m ≤ numBits m' := by
  rw [maskKey, maskKey] at h
  omega

/-- The place of an entry in the table. -/
def OpcodeHandler.key {α : Type} (e : OpcodeHandler α) : Nat := maskKey e.pattern.mask

/-- A sorted table of the masks of some loops is in their order. -/
theorem grouped_of_sorted {α : Type} {gs : List (Nat × List Nat)}
    (keys : (gs.map Prod.fst).Pairwise (maskKey · < maskKey ·)) {es : List (OpcodeHandler α)}
    (sorted : es.Pairwise (OpcodeHandler.key · ≤ OpcodeHandler.key ·))
    (masks : ∀ e ∈ es, e.pattern.mask ∈ gs.map Prod.fst) : Grouped gs es := by
  induction gs generalizing es with
  | nil => exact List.eq_nil_iff_forall_not_mem.mpr fun e he => List.not_mem_nil (masks e he)
  | cons g gs ih =>
    obtain ⟨first, keys⟩ := List.pairwise_cons.mp keys
    have least : ∀ e ∈ es, maskKey g.1 ≤ maskKey e.pattern.mask := by
      intro e he
      rcases List.mem_cons.mp (masks e he) with heq | hmem
      · rw [heq]
      · exact Nat.le_of_lt (first _ hmem)
    obtain ⟨as, bs, rfl, has, hbs⟩ := BitPattern.exists_split sorted least
    obtain ⟨masksA, masksB⟩ := List.forall_mem_append.mp masks
    refine ⟨as, bs, rfl, fun e he => ?_, fun e he heq => ?_, ih keys ?_ fun e he => ?_⟩
    · exact (List.mem_cons.mp (masksA e he)).resolve_right fun hmem =>
        absurd (has e he) (Nat.ne_of_gt (first _ hmem))
    · exact absurd (hbs e he) (by rw [OpcodeHandler.key, heq]; exact Nat.lt_irrefl _)
    · exact (List.pairwise_append.mp sorted).2.1
    · refine (List.mem_cons.mp (masksB e he)).resolve_left fun heq => ?_
      exact absurd (hbs e he) (by rw [OpcodeHandler.key, heq]; exact Nat.lt_irrefl _)

/-- **The order of the table.** A sorted table of supported masks, with the mask `0xff00` among
them, is in the order of the builder's loops. -/
theorem inLoopOrder_of_sorted {α : Type} {table : List (OpcodeHandler α)}
    (sorted : table.Pairwise (OpcodeHandler.key · ≤ OpcodeHandler.key ·))
    (supported : ∀ e ∈ table, SupportedMask e.pattern.mask)
    (present : ∃ e ∈ table, e.pattern.mask = 0xff00) : InLoopOrder table := by
  obtain ⟨b, hb⟩ : ∃ b, table.find? (fun e => e.pattern.mask == 0xff00) = some b := by
    obtain ⟨e, he, hmask⟩ := present
    exact Option.isSome_iff_exists.mp (List.find?_isSome.mpr ⟨e, he, beq_iff_eq.mpr hmask⟩)
  obtain ⟨hmask, as, rest, rfl, has⟩ := List.find?_eq_some_iff_append.mp hb
  have hbmask : b.pattern.mask = 0xff00 := beq_iff_eq.mp hmask
  obtain ⟨-, sortedB, -⟩ := List.pairwise_append.mp sorted
  obtain ⟨-, supportedB⟩ := List.forall_mem_append.mp supported
  refine ⟨as, b :: rest, rfl, fun e he => ?_, ⟨b, rfl, hbmask⟩,
    grouped_of_sorted maskGroups_keys.1 sortedB fun e he => ?_⟩
  · simpa using has e he
  · -- after the first of eight bits there is no mask of fewer
    have hkey : maskKey 0xff00 ≤ maskKey e.pattern.mask := by
      rw [← hbmask]
      rcases List.mem_cons.mp he with rfl | he
      · exact Nat.le_refl _
      · exact (List.pairwise_cons.mp sortedB).1 e he
    have hlt := (supportedB e he).lt
    refine (supportedB e he).resolve_left fun few => ?_
    have hbits : numBits 0xff00 ≤ numBits e.pattern.mask :=
      numBits_le_of_maskKey (by decide) hlt hkey
    exact absurd few.1 (Nat.not_lt.mpr hbits)

/-! ### The decoder -/

/-- The handler of a line for an opcode. -/
def OpcodeStruct.handlerFor (op : OpcodeStruct) (x : Nat) : OpcodeHandler String :=
  outputEntry op (op.mode x)

theorem outputEntry_supported {op : OpcodeStruct} (fits : op.Fits) {m : EaMode}
    (hm : m ∈ eaModes op) : SupportedMask (outputEntry op m).pattern.mask := by
  show SupportedMask (op.pattern.mask ||| m.pattern.mask)
  rw [mem_eaModes fits] at hm
  by_cases hempty : op.eaAllowed = []
  · rw [if_pos hempty] at hm
    rw [hm]
    exact (Nat.or_zero _).symm ▸ fits.plain hempty
  · rw [if_neg hempty] at hm
    have hmode : m ≠ .none := by
      rintro rfl
      rcases hm with hmem | ⟨h, -⟩ | ⟨h, -⟩
      · exact (fits.allowed _ hmem).1 rfl
      · cases h
      · cases h
    right
    rcases fits.modes hempty with hmask | hmask
    · rw [hmask]
      cases m <;> first | exact absurd rfl hmode | decide
    · rw [hmask]
      cases m <;> first | exact absurd rfl hmode | decide

theorem outputEntry_fits {op : OpcodeStruct} (fits : op.Fits) {m : EaMode}
    (hm : m ∈ eaModes op) : (outputEntry op m).Fits := by
  refine ⟨fits.within.union m.within (fits.disjoint hm), ?_⟩
  have hmode : m.pattern.value < 2 ^ 16 := by cases m <;> decide
  exact Nat.or_lt_two_pow (n := 16) fits.value_lt hmode

/-- The handler for the stack pointer has the greater key. -/
theorem maskKey_mode {op : OpcodeStruct} (fits : op.Fits) {m m' : EaMode}
    (h : m = .pi ∧ m' = .pi7 ∨ m = .pd ∧ m' = .pd7) (hm : m ∈ eaModes op) :
    maskKey (outputEntry op m).pattern.mask
      < maskKey (outputEntry op m').pattern.mask := by
  show maskKey (op.pattern.mask ||| m.pattern.mask) < maskKey (op.pattern.mask ||| m'.pattern.mask)
  have hsome : op.eaAllowed ≠ [] := by
    intro hempty
    rw [mem_eaModes fits, if_pos hempty] at hm
    rcases h with ⟨rfl, -⟩ | ⟨rfl, -⟩ <;> cases hm
  rcases fits.modes hsome with hmask | hmask
  · rw [hmask]
    rcases h with ⟨rfl, rfl⟩ | ⟨rfl, rfl⟩ <;> decide
  · rw [hmask]
    rcases h with ⟨rfl, rfl⟩ | ⟨rfl, rfl⟩ <;> decide

/-- The lines of Bcc with a byte displacement and of CLR.B in memory. -/
def branchAndClear : List OpcodeStruct := [
  ⟨"bcc", 8, ".", ".", ⟨0xf000, 0x6000⟩, [], fun _ _ => 10⟩,
  ⟨"clr", 8, ".", ".", ⟨0xffc0, 0x4200⟩, [.ai, .pi, .pd, .di, .ix, .aw, .al], fun _ _ => 8⟩]

theorem generated_branchAndClear :
    processOpcodeHandlers branchAndClear = .ok (outputEntries branchAndClear) :=
  processOpcodeHandlers_ok_iff.mpr ⟨rfl, by decide, by decide +kernel⟩

end Kyacopycat
