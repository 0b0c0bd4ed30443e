import Kyacopycat.Musashi.Flags

/-!
The status register and the stack pointers.

Setting the status register spreads its bits over the words of the core; reading it collects
them. `StatusOk` is what every state of a 68000 keeps. The two stack pointers are one register
and one slot of a bank, exchanged when the mode changes.

* `status_set_get`: what is read is what was set, but for the unimplemented bits, and setting the
  register to what it reads changes nothing that can be observed.
* `stack_pointers_refine`: register and bank behave as two registers.
-/

namespace Kyacopycat

/-! ### The status register -/

/-- `m68ki_set_ccr`. -/
def m68kiSetCcr (c : Cpu) (value : UInt32) : Cpu :=
  { c with
    xFlag := (value &&& 0x10) <<< 4
    nFlag := (value &&& 0x08) <<< 4
    notZFlag := if value &&& 0x04 = 0 then 1 else 0
    vFlag := (value &&& 0x02) <<< 6
    cFlag := (value &&& 0x01) <<< 8 }

/-- `m68ki_set_sr_noint`. -/
def m68kiSetSrNoint (c : Cpu) (value : UInt32) : Option Cpu :=
  -- the unimplemented bits
  let value := value &&& c.srMask
  let c := { c with
    t1Flag := value &&& 0x8000
    t0Flag := value &&& 0x4000
    intMask := value &&& 0x0700 }
  m68kiSetSmFlag (m68kiSetCcr c value) ((value >>> 11) &&& 6)

/-- What every state of a 68000 keeps. -/
structure StatusOk (c : Cpu) : Prop where
  srMask : c.srMask = 0xa71f
  t1Flag : c.t1Flag = 0 ∨ c.t1Flag = 0x8000
  t0Flag : c.t0Flag = 0
  sFlag : c.sFlag = 0 ∨ c.sFlag = 4
  mFlag : c.mFlag = 0
  intMask : c.intMask &&& 0x0700 = c.intMask

/-! ### Stack pointers -/

/-- The stack pointer of a mode: the active one is a register, the other one is banked. -/
def Cpu.stackPointer (c : Cpu) (supervisor : Bool) : UInt32 :=
  if decide (c.sFlag ≠ 0) = supervisor then c.regSp else c.sp (if supervisor then 4 else 0)

/-- The mode of a core. -/
def Cpu.supervisor (c : Cpu) : Bool := decide (c.sFlag ≠ 0)

theorem Cpu.stackPointer_active (c : Cpu) : c.stackPointer c.supervisor = c.dar 15 := if_pos rfl

/-- The stack pointer of the other mode is in the bank. -/
theorem Cpu.stackPointer_other {c d : Cpu} (sFlag : d.sFlag = c.sFlag) (sp : d.sp = c.sp) :
    d.stackPointer (!d.supervisor) = c.stackPointer (!c.supervisor) := by
  have hother : ∀ e : Cpu, e.stackPointer (!e.supervisor)
      = e.sp (if (!e.supervisor) = true then 4 else 0) := by
    intro e
    refine if_neg ?_
    cases h : e.supervisor <;> simpa [Cpu.supervisor] using h
  have hmode : d.supervisor = c.supervisor := by rw [Cpu.supervisor, Cpu.supervisor, sFlag]
  rw [hother, hother, hmode, sp]

theorem StatusOk.sFlag_of_supervisor {c : Cpu} (ok : StatusOk c) (h : c.supervisor = true) :
    c.sFlag = 4 := by
  rcases ok.sFlag with hs | hs
  · rw [Cpu.supervisor, hs] at h
    cases h
  · exact hs

theorem spIndex_eq {c : Cpu} (s : c.sFlag = 0 ∨ c.sFlag = 4) (m : c.mFlag = 0) :
    c.spIndex = if c.sFlag = 0 then 0 else 4 := by
  rw [Cpu.spIndex, m]
  rcases s with s | s
  · rw [s]
    rfl
  · rw [s]
    rfl

/-- The core after a change of the S flag: the stack pointers have been exchanged. -/
def Cpu.switch (c : Cpu) (s : UInt32) : Cpu :=
  let sp := c.sp.set (if c.sFlag = 0 then 0 else 4) c.regSp
  { c with sFlag := s, sp, dar := c.dar.set 15 (sp (if s = 0 then 0 else 4)) }

section Switch

variable {c : Cpu} {v : UInt32}

theorem m68kiSetSFlag_eq (s : c.sFlag = 0 ∨ c.sFlag = 4) (m : c.mFlag = 0) (hv : v = 0 ∨ v = 4) :
    m68kiSetSFlag c v = some (c.switch v) := by
  have hindex : c.spIndex < 7 := by
    rw [spIndex_eq s m]
    split <;> decide
  have hstore := CArray.store_of_lt c.sp hindex (c.dar 15)
  rw [spIndex_eq s m] at hstore
  obtain ⟨d, hd⟩ : ∃ d, d = { c with
    sp := c.sp.set (if c.sFlag = 0 then 0 else 4) (c.dar 15), sFlag := v } := ⟨_, rfl⟩
  have hload : d.sp.load d.spIndex = some (d.sp (if v = 0 then 0 else 4)) := by
    rw [spIndex_eq (by rw [hd]; exact hv) (by rw [hd]; exact m), hd]
    rcases hv with rfl | rfl
    · rfl
    · rfl
  rw [m68kiSetSFlag, spIndex_eq s m]
  subst hd
  exact Option.bind_eq_some_iff.mpr ⟨_, hstore, Option.bind_eq_some_iff.mpr ⟨_, hload, rfl⟩⟩

theorem m68kiSetSmFlag_eq (s : c.sFlag = 0 ∨ c.sFlag = 4) (m : c.mFlag = 0)
    (hv : v = 0 ∨ v = 4) : m68kiSetSmFlag c v = some (c.switch v) := by
  have hs : v &&& 4 = v := by rcases hv with rfl | rfl <;> rfl
  have hm : v &&& 2 = 0 := by rcases hv with rfl | rfl <;> rfl
  rw [← m68kiSetSFlag_eq s m hv, m68kiSetSmFlag, m68kiSetSFlag, hs, hm, ← m]

@[simp] theorem Cpu.switch_sFlag : (c.switch v).sFlag = v := rfl

theorem Cpu.switch_register {r : Fin 16} (h : r ≠ 15) : (c.switch v).dar r = c.dar r := by
  have hne : ¬ r.val = 15 := fun h' => h (Fin.ext h')
  exact (CArray.set_apply _ _ _ r).trans (if_neg hne)

/-- A change of the mode keeps both stack pointers. -/
theorem Cpu.switch_stackPointer (s : c.sFlag = 0 ∨ c.sFlag = 4) (hv : v = 0 ∨ v = 4) (b : Bool) :
    (c.switch v).stackPointer b = c.stackPointer b := by
  rcases s with s | s <;> rcases hv with rfl | rfl <;> cases b <;>
    simp [Cpu.stackPointer, Cpu.switch, Cpu.regSp, s]

end Switch

/-! ### Setting and reading -/

/-- The implemented bits of a value for the status register. -/
def srBits (v : UInt32) : UInt32 := v &&& 0xa71f

/-- The S flag in a value for the status register. -/
def srMode (v : UInt32) : UInt32 := (srBits v >>> 11) &&& 6

/-- The core after the status register has been set. -/
def Cpu.withSr (c : Cpu) (value : UInt32) : Cpu :=
  (m68kiSetCcr { c with
    t1Flag := srBits value &&& 0x8000
    t0Flag := srBits value &&& 0x4000
    intMask := srBits value &&& 0x0700 } (srBits value)).switch (srMode value)

section Sr

variable {c : Cpu}

/-- The mode that a status register selects. -/
theorem srMode_cases (v : UInt32) :
    srMode v = 0 ∧ srBits v &&& 0x2000 = 0 ∨ srMode v = 4 ∧ srBits v &&& 0x2000 = 0x2000 := by
  have hbits : srMode v = (srBits v &&& 0x2000) >>> 11 := by
    calc srMode v = (srBits v &&& 0x3000) >>> 11 := BitField.shiftRight_and (srBits v) 0x3000 11
      _ = (srBits v &&& 0x2000) >>> 11 := by
          rw [srBits, UInt32.and_assoc, UInt32.and_assoc]
          rfl
  rcases BitField.and_twoPow_cases (k := 13) (m := 0x2000) rfl (srBits v) with h | h
  · exact .inl ⟨by rw [hbits, h]; rfl, h⟩
  · exact .inr ⟨by rw [hbits, h]; rfl, h⟩

theorem srMode_flag (v : UInt32) : srMode v = 0 ∨ srMode v = 4 := by
  rcases srMode_cases v with ⟨h, -⟩ | ⟨h, -⟩
  · exact .inl h
  · exact .inr h

theorem m68kiSetSrNoint_eq (ok : StatusOk c) (v : UInt32) :
    m68kiSetSrNoint c v = some (c.withSr v) := by
  have hbits : v &&& c.srMask = srBits v := by
    rw [ok.srMask]
    rfl
  rw [m68kiSetSrNoint, hbits]
  refine m68kiSetSmFlag_eq ?_ ?_ (srMode_flag v)
  · exact ok.sFlag
  · exact ok.mFlag

/-- The parts of the status register, each in its place. -/
def Cpu.srS (c : Cpu) : UInt32 := c.sFlag <<< 11
def Cpu.srX (c : Cpu) : UInt32 := (c.xFlag &&& 0x100) >>> 4
def Cpu.srN (c : Cpu) : UInt32 := (c.nFlag &&& 0x80) >>> 4
def Cpu.srZ (c : Cpu) : UInt32 := (if c.notZFlag = 0 then (1 : UInt32) else 0) <<< 2
def Cpu.srV (c : Cpu) : UInt32 := (c.vFlag &&& 0x80) >>> 6
def Cpu.srC (c : Cpu) : UInt32 := (c.cFlag &&& 0x100) >>> 8

theorem getSr_eq (t0 : c.t0Flag = 0) (m : c.mFlag = 0) :
    m68kiGetSr c = c.t1Flag ||| c.srS ||| c.intMask
      ||| (c.srX ||| c.srN ||| c.srZ ||| c.srV ||| c.srC) := by
  have hm : c.mFlag <<< (11 : UInt32) = 0 := by
    rw [m]
    rfl
  rw [m68kiGetSr, t0, hm, UInt32.or_zero, UInt32.or_zero]
  rfl

theorem srBits_and (v m : UInt32) : srBits v &&& m = v &&& (0xa71f &&& m) := UInt32.and_assoc ..

theorem statusOk_withSr (ok : StatusOk c) (v : UInt32) : StatusOk (c.withSr v) where
  srMask := ok.srMask
  t1Flag := BitField.and_twoPow_cases (k := 15) rfl (srBits v)
  t0Flag := (srBits_and v 0x4000).trans UInt32.and_zero
  sFlag := srMode_flag v
  mFlag := ok.mFlag
  intMask := by
    show srBits v &&& 0x0700 &&& 0x0700 = srBits v &&& 0x0700
    rw [UInt32.and_assoc, UInt32.and_self]

/-- A bit that is set and read back. -/
theorem bit_cases {p : UInt32 → Prop} {m : UInt32} {k : Nat} (hm : m.toNat = 2 ^ k) (v : UInt32)
    (clear : p 0) (set : p m) : p (v &&& m) := by
  rcases BitField.and_twoPow_cases hm v with h | h
  · rw [h]
    exact clear
  · rw [h]
    exact set

/-- The parts of a status register that has been set. -/
theorem srParts_withSr (v : UInt32) :
    (c.withSr v).srS = srBits v &&& 0x2000 ∧ (c.withSr v).srX = srBits v &&& 0x10 ∧
      (c.withSr v).srN = srBits v &&& 0x08 ∧ (c.withSr v).srZ = srBits v &&& 0x04 ∧
      (c.withSr v).srV = srBits v &&& 0x02 ∧ (c.withSr v).srC = srBits v &&& 0x01 := by
  refine ⟨?_, ?_, ?_, ?_, ?_, ?_⟩
  · rcases srMode_cases v with ⟨h, h'⟩ | ⟨h, h'⟩
    · rw [Cpu.srS, Cpu.withSr, Cpu.switch_sFlag, h, h']
      rfl
    · rw [Cpu.srS, Cpu.withSr, Cpu.switch_sFlag, h, h']
      rfl
  · exact bit_cases (p := fun b : UInt32 => ((b <<< 4) &&& 0x100) >>> 4 = b) (k := 4) rfl _ rfl rfl
  · exact bit_cases (p := fun b : UInt32 => ((b <<< 4) &&& 0x80) >>> 4 = b) (k := 3) rfl _ rfl rfl
  · exact bit_cases (p := fun b : UInt32 => (if (if b = 0 then (1 : UInt32) else 0) = 0 then
      (1 : UInt32) else 0) <<< 2 = b) (k := 2) rfl _ rfl rfl
  · exact bit_cases (p := fun b : UInt32 => ((b <<< 6) &&& 0x80) >>> 6 = b) (k := 1) rfl _ rfl rfl
  · exact bit_cases (p := fun b : UInt32 => ((b <<< 8) &&& 0x100) >>> 8 = b) (k := 0) rfl _ rfl rfl

/-- What is read from the status register is what was set, but for the unimplemented bits. -/
theorem getSr_withSr (ok : StatusOk c) (v : UInt32) : m68kiGetSr (c.withSr v) = srBits v := by
  have ok' := statusOk_withSr ok v
  obtain ⟨hs, hx, hn, hz, hv, hc⟩ := srParts_withSr (c := c) v
  have hall : srBits v &&& 0xa71f = srBits v := by
    rw [srBits, UInt32.and_assoc, UInt32.and_self]
  rw [getSr_eq ok'.t0Flag ok'.mFlag, hs, hx, hn, hz, hv, hc]
  show (srBits v &&& 0x8000) ||| (srBits v &&& 0x2000) ||| (srBits v &&& 0x0700) ||| (_ ||| _) = _
  simp only [BitField.and_or_and]
  exact hall

/-- The places of the parts of the status register. -/
structure SrFields (c : Cpu) (sr : UInt32) : Prop where
  implemented : srBits sr = sr
  t1 : sr &&& 0x8000 = c.t1Flag
  s : sr &&& 0x2000 = c.srS
  intMask : sr &&& 0x0700 = c.intMask
  x : sr &&& 0x10 = c.srX
  n : sr &&& 0x08 = c.srN
  z : sr &&& 0x04 = c.srZ
  v : sr &&& 0x02 = c.srV
  c : sr &&& 0x01 = c.srC

/-- What is read from the status register, taken apart. -/
theorem getSr_fields (ok : StatusOk c) : SrFields c (m68kiGetSr c) := by
  have hin : ∀ {p M : UInt32} (m : UInt32), p &&& M = p → p &&& m = p &&& (M &&& m) :=
    fun m h => by rw [← UInt32.and_assoc, h]
  have hor : ∀ a b m : UInt32, (a ||| b) &&& m = (a &&& m) ||| (b &&& m) := fun a b m => by
    rw [UInt32.and_comm, ← BitField.and_or_and, UInt32.and_comm m a, UInt32.and_comm m b]
  have ht1 : c.t1Flag &&& 0x8000 = c.t1Flag := by
    rcases ok.t1Flag with h | h <;> rw [h] <;> rfl
  have hs : c.srS &&& 0x2000 = c.srS := by
    rcases ok.sFlag with h | h <;> rw [Cpu.srS, h] <;> rfl
  have hx : c.srX &&& 0x10 = c.srX :=
    bit_cases (p := fun b => (b >>> (4 : UInt32)) &&& 0x10 = b >>> (4 : UInt32)) (k := 8) rfl
      c.xFlag rfl rfl
  have hn : c.srN &&& 0x08 = c.srN :=
    bit_cases (p := fun b => (b >>> (4 : UInt32)) &&& 0x08 = b >>> (4 : UInt32)) (k := 7) rfl
      c.nFlag rfl rfl
  have hz : c.srZ &&& 0x04 = c.srZ := by
    rw [Cpu.srZ]
    split <;> rfl
  have hv : c.srV &&& 0x02 = c.srV :=
    bit_cases (p := fun b => (b >>> (6 : UInt32)) &&& 0x02 = b >>> (6 : UInt32)) (k := 7) rfl
      c.vFlag rfl rfl
  have hc : c.srC &&& 0x01 = c.srC :=
    bit_cases (p := fun b => (b >>> (8 : UInt32)) &&& 0x01 = b >>> (8 : UInt32)) (k := 8) rfl
      c.cFlag rfl rfl
  have hall : ∀ m, m68kiGetSr c &&& m = (c.t1Flag &&& (0x8000 &&& m)) ||| (c.srS &&& (0x2000 &&& m))
      ||| (c.intMask &&& (0x0700 &&& m)) ||| ((c.srX &&& (0x10 &&& m)) ||| (c.srN &&& (0x08 &&& m))
      ||| (c.srZ &&& (0x04 &&& m)) ||| (c.srV &&& (0x02 &&& m)) ||| (c.srC &&& (0x01 &&& m))) := by
    intro m
    rw [getSr_eq ok.t0Flag ok.mFlag, hor, hor, hor, hor, hor, hor, hor, ← hin m ht1, ← hin m hs,
      ← hin m ok.intMask, ← hin m hx, ← hin m hn, ← hin m hz, ← hin m hv, ← hin m hc]
  have hzero : ∀ {p M m : UInt32}, M &&& m = 0 → p &&& (M &&& m) = 0 := fun h => by
    rw [h, UInt32.and_zero]
  have hself : ∀ {p M : UInt32}, p &&& M = p → p &&& (M &&& M) = p := fun h => by
    rw [UInt32.and_self, h]
  refine ⟨?_, ?_, ?_, ?_, ?_, ?_, ?_, ?_, ?_⟩
  · refine (hall 0xa71f).trans ?_
    rw [getSr_eq ok.t0Flag ok.mFlag]
    exact congrArg₂ _ (congrArg₂ _ (congrArg₂ _ ht1 hs) ok.intMask)
      (congrArg₂ _ (congrArg₂ _ (congrArg₂ _ (congrArg₂ _ hx hn) hz) hv) hc)
  all_goals rw [hall]
  all_goals simp (disch := decide) only [hself ht1, hself hs, hself ok.intMask, hself hx, hself hn,
    hself hz, hself hv, hself hc, hzero, UInt32.or_zero, UInt32.zero_or]

/-- The condition codes, from the parts of the status register. -/
theorem flags_srParts (c : Cpu) :
    c.flags.xs = decide (c.srX ≠ 0) ∧ c.flags.mi = decide (c.srN ≠ 0) ∧
      c.flags.ne = decide (c.srZ = 0) ∧ c.flags.vs = decide (c.srV ≠ 0) ∧
      c.flags.cs = decide (c.srC ≠ 0) := by
  refine ⟨?_, ?_, ?_, ?_, ?_⟩
  · exact bit_cases (p := fun b => decide (b ≠ 0) = decide (b >>> (4 : UInt32) ≠ 0)) (k := 8) rfl
      c.xFlag rfl rfl
  · exact bit_cases (p := fun b => decide (b ≠ 0) = decide (b >>> (4 : UInt32) ≠ 0)) (k := 7) rfl
      c.nFlag rfl rfl
  · rw [Flags.ne, Cpu.flags, Cpu.srZ, decide_eq_decide]
    by_cases h : c.notZFlag = 0
    · rw [if_pos h]
      exact iff_of_false (fun h' => h' h) (by decide)
    · rw [if_neg h]
      exact iff_of_true h rfl
  · exact bit_cases (p := fun b => decide (b ≠ 0) = decide (b >>> (6 : UInt32) ≠ 0)) (k := 7) rfl
      c.vFlag rfl rfl
  · exact bit_cases (p := fun b => decide (b ≠ 0) = decide (b >>> (8 : UInt32) ≠ 0)) (k := 8) rfl
      c.cFlag rfl rfl

/-- What a program can observe of the status: the register itself, the mode with both stack
pointers, and every condition. -/
structure SameStatus (c c' : Cpu) : Prop where
  sr : m68kiGetSr c' = m68kiGetSr c
  sFlag : c'.sFlag = c.sFlag
  t1Flag : c'.t1Flag = c.t1Flag
  intMask : c'.intMask = c.intMask
  xs : c'.flags.xs = c.flags.xs
  cond : ∀ k, cond k c'.flags = cond k c.flags

/-- Setting the status register to what was read from a core gives the status of that core. -/
theorem sameStatus_withSr {d : Cpu} (ok : StatusOk c) (ok' : StatusOk d) :
    SameStatus c (d.withSr (m68kiGetSr c)) := by
  have fields := getSr_fields ok
  obtain ⟨hs, hx, hn, hz, hv, hc⟩ := srParts_withSr (c := d) (m68kiGetSr c)
  rw [fields.implemented] at hs hx hn hz hv hc
  rw [fields.s] at hs
  rw [fields.x] at hx
  rw [fields.n] at hn
  rw [fields.z] at hz
  rw [fields.v] at hv
  rw [fields.c] at hc
  obtain ⟨xs, mi, ne, vs, cs⟩ := flags_srParts c
  obtain ⟨xs', mi', ne', vs', cs'⟩ := flags_srParts (d.withSr (m68kiGetSr c))
  rw [hx, ← xs] at xs'
  rw [hn, ← mi] at mi'
  rw [hz, ← ne] at ne'
  rw [hv, ← vs] at vs'
  rw [hc, ← cs] at cs'
  refine ⟨(getSr_withSr ok' _).trans fields.implemented, ?_, ?_, ?_, xs',
    cond_congr cs' ne' vs' mi'⟩
  · rcases (statusOk_withSr ok' (m68kiGetSr c)).sFlag with h | h <;>
      rcases ok.sFlag with h' | h' <;>
      rw [Cpu.srS, Cpu.srS, h, h'] at hs
    · exact h.trans h'.symm
    · exact absurd hs (by decide)
    · exact absurd hs (by decide)
    · exact h.trans h'.symm
  · show srBits (m68kiGetSr c) &&& 0x8000 = c.t1Flag
    rw [fields.implemented, fields.t1]
  · show srBits (m68kiGetSr c) &&& 0x0700 = c.intMask
    rw [fields.implemented, fields.intMask]

/-- Setting the status register keeps both stack pointers. -/
theorem withSr_stackPointer (ok : StatusOk c) (v : UInt32) (b : Bool) :
    (c.withSr v).stackPointer b = c.stackPointer b :=
  Cpu.switch_stackPointer ok.sFlag (srMode_flag v) b

theorem withSr_register (v : UInt32) {r : Fin 16} (h : r ≠ 15) : (c.withSr v).dar r = c.dar r :=
  Cpu.switch_register h

end Sr

/-- Only the low sixteen bits of a value for the status register matter. -/
theorem m68kiSetSrNoint_low {c : Cpu} (ok : StatusOk c) {v w : UInt32}
    (low : v &&& 0xffff = w &&& 0xffff) : m68kiSetSrNoint c v = m68kiSetSrNoint c w := by
  have hmask : ∀ u : UInt32, u &&& c.srMask = u &&& 0xffff &&& 0xa71f := by
    intro u
    rw [ok.srMask, UInt32.and_assoc]
    rfl
  rw [m68kiSetSrNoint, m68kiSetSrNoint, hmask, hmask, low]

/-- Setting a core's status register to what it reads keeps every register. -/
theorem withSr_self_register {c : Cpu} (ok : StatusOk c) (r : Fin 16) :
    (c.withSr (m68kiGetSr c)).dar r = c.dar r := by
  by_cases h : r = 15
  · have hmode : (c.withSr (m68kiGetSr c)).supervisor = c.supervisor := by
      rw [Cpu.supervisor, Cpu.supervisor, (sameStatus_withSr ok ok).sFlag]
    rw [h, ← Cpu.stackPointer_active, ← Cpu.stackPointer_active, hmode]
    exact withSr_stackPointer ok _ _
  · exact withSr_register _ h

/-- **What is read from the status register is what was set.** Setting the status register of any
68000 core gives a core whose register reads the same value without the unimplemented bits, and
keeps both stack pointers and the other registers; only the low sixteen bits matter. Setting it to
the value read from any core, perhaps another one, restores the status of that core: the mode, the
mask, the trace flag, the extend flag and every condition. Setting it to the value just read
changes none of these, no register and no stack pointer. -/
theorem status_set_get {c d : Cpu} (okC : StatusOk c) (okD : StatusOk d) :
    (∀ v, ∃ d', m68kiSetSrNoint d v = some d' ∧ StatusOk d' ∧ m68kiGetSr d' = v &&& 0xa71f ∧
      (∀ b, d'.stackPointer b = d.stackPointer b) ∧ ∀ r, r ≠ 15 → d'.dar r = d.dar r) ∧
    (∀ v w, v &&& 0xffff = w &&& 0xffff → m68kiSetSrNoint d v = m68kiSetSrNoint d w) ∧
    (∃ d', m68kiSetSrNoint d (m68kiGetSr c) = some d' ∧ SameStatus c d') ∧
    ∃ c', m68kiSetSrNoint c (m68kiGetSr c) = some c' ∧ SameStatus c c' ∧
      (∀ b, c'.stackPointer b = c.stackPointer b) ∧ ∀ r, c'.dar r = c.dar r := by
  refine ⟨?_, fun v w => m68kiSetSrNoint_low okD, ?_, ?_⟩
  · intro v
    exact ⟨_, m68kiSetSrNoint_eq okD v, statusOk_withSr okD v, getSr_withSr okD v,
      withSr_stackPointer okD v, fun _ h => withSr_register v h⟩
  · exact ⟨_, m68kiSetSrNoint_eq okD _, sameStatus_withSr okC okD⟩
  · exact ⟨_, m68kiSetSrNoint_eq okC _, sameStatus_withSr okC okC, withSr_stackPointer okC _,
      withSr_self_register okC⟩

theorem statusOk_setCpuType : StatusOk (m68kSetCpuType Cpu.initial) :=
  ⟨rfl, .inl rfl, rfl, .inl rfl, rfl, rfl⟩

theorem status_set_get_initial :
    ∃ c, m68kiSetSrNoint (m68kSetCpuType Cpu.initial) 0xffff = some c ∧ m68kiGetSr c = 0xa71f := by
  obtain ⟨c, h, -, sr, -⟩ := (status_set_get statusOk_setCpuType statusOk_setCpuType).1 0xffff
  exact ⟨c, h, sr⟩

/-! ### Two stack pointers -/

/-- What is done to the stack pointers. -/
inductive StackOp where
  /-- an assignment to A7 -/
  | write (v : UInt32)
  /-- `m68ki_set_s_flag` -/
  | mode (supervisor : Bool)
  /-- `m68ki_set_sr_noint` -/
  | status (v : UInt32)
  /-- `m68k_op_move_32_tou` in supervisor mode -/
  | toUser (v : UInt32)
  deriving DecidableEq, Repr

def StackOp.apply (c : Cpu) : StackOp → Option Cpu
  | .write v => some { c with dar := c.dar.set 15 v }
  | .mode supervisor => m68kiSetSFlag c (if supervisor then 4 else 0)
  | .status v => m68kiSetSrNoint c v
  | .toUser v => if c.sFlag ≠ 0 then some { c with sp := c.sp.set 0 v } else none

/-- A mode and a stack pointer for each mode. -/
structure StackPointers where
  supervisor : Bool
  pointer : Bool → UInt32

/-- The operations on two separate stack pointers. -/
def StackPointers.apply (p : StackPointers) : StackOp → Option StackPointers
  | .write v => some { p with pointer := Function.update p.pointer p.supervisor v }
  | .mode supervisor => some { p with supervisor }
  | .status v => some { p with supervisor := decide (v &&& 0x2000 ≠ 0) }
  | .toUser v =>
    if p.supervisor then some { p with pointer := Function.update p.pointer false v } else none

/-- The stack pointers of a core. -/
def Cpu.stackPointers (c : Cpu) : StackPointers := ⟨decide (c.sFlag ≠ 0), c.stackPointer⟩

theorem StackOp.apply_statusOk {c c' : Cpu} {x : StackOp} (ok : StatusOk c)
    (h : x.apply c = some c') : StatusOk c' := by
  cases x with
  | write v =>
    cases h
    exact ⟨ok.srMask, ok.t1Flag, ok.t0Flag, ok.sFlag, ok.mFlag, ok.intMask⟩
  | mode b =>
    have hb : (if b then (4 : UInt32) else 0) = 0 ∨ (if b then (4 : UInt32) else 0) = 4 := by
      cases b
      · exact .inl rfl
      · exact .inr rfl
    rw [StackOp.apply, m68kiSetSFlag_eq ok.sFlag ok.mFlag hb] at h
    cases h
    exact ⟨ok.srMask, ok.t1Flag, ok.t0Flag, hb, ok.mFlag, ok.intMask⟩
  | status v =>
    rw [StackOp.apply, m68kiSetSrNoint_eq ok v] at h
    cases h
    exact statusOk_withSr ok v
  | toUser v =>
    rw [StackOp.apply] at h
    split at h
    · cases h
      exact ⟨ok.srMask, ok.t1Flag, ok.t0Flag, ok.sFlag, ok.mFlag, ok.intMask⟩
    · cases h

theorem StackOp.apply_agree {c : Cpu} (x : StackOp) (ok : StatusOk c) :
    (x.apply c).map Cpu.stackPointers = c.stackPointers.apply x := by
  cases x with
  | write v =>
    refine congrArg some (congrArg (StackPointers.mk _) (funext fun b => ?_))
    rcases ok.sFlag with h | h <;> cases b <;>
      simp [Cpu.stackPointer, Cpu.stackPointers, Cpu.regSp, h]
  | mode b =>
    have hb : (if b then (4 : UInt32) else 0) = 0 ∨ (if b then (4 : UInt32) else 0) = 4 := by
      cases b
      · exact .inl rfl
      · exact .inr rfl
    rw [StackOp.apply, m68kiSetSFlag_eq ok.sFlag ok.mFlag hb]
    refine congrArg some (congrArg₂ StackPointers.mk ?_ (funext fun b' =>
      Cpu.switch_stackPointer ok.sFlag hb b'))
    cases b
    · rfl
    · rfl
  | status v =>
    rw [StackOp.apply, m68kiSetSrNoint_eq ok v]
    refine congrArg some (congrArg₂ StackPointers.mk ?_ (funext fun b =>
      withSr_stackPointer ok v b))
    have hbit : srBits v &&& 0x2000 = v &&& 0x2000 := srBits_and v 0x2000
    rw [← hbit]
    rcases srMode_cases v with ⟨h, h'⟩ | ⟨h, h'⟩
    · rw [Cpu.withSr, Cpu.switch_sFlag, h, h']
    · rw [Cpu.withSr, Cpu.switch_sFlag, h, h']
      rfl
  | toUser v =>
    rw [StackOp.apply, StackPointers.apply]
    rcases ok.sFlag with h | h
    · rw [if_neg fun h' => h' h, if_neg (by simp [Cpu.stackPointers, h])]
      rfl
    · rw [if_pos (by rw [h]; decide), if_pos (by simp [Cpu.stackPointers, h])]
      refine congrArg some (congrArg (StackPointers.mk _) (funext fun b => ?_))
      cases b <;> simp [Cpu.stackPointer, Cpu.stackPointers, h]

/-- **A7 and its bank are two registers.** Over any sequence of assignments to A7, changes of the
mode, settings of the status register and assignments to the user stack pointer, the core's
stack pointers are those of a machine that has one register for each mode; what a program reads
from A7 is the register of its mode, and what `m68k_op_move_32_fru` reads is the user's. -/
theorem stack_pointers_refine {c : Cpu} (ok : StatusOk c) (xs : List StackOp) :
    (Run.run StackOp.apply c xs).map Cpu.stackPointers
        = Run.run StackPointers.apply c.stackPointers xs ∧
      ∀ c', Run.run StackOp.apply c xs = some c' →
        c'.dar 15 = c'.stackPointers.pointer c'.stackPointers.supervisor ∧
          (c'.sFlag ≠ 0 → c'.sp 0 = c'.stackPointers.pointer false) := by
  constructor
  · exact Run.run_refines _ _ (fun _ _ _ ok h => StackOp.apply_statusOk ok h)
      (fun _ x ok => x.apply_agree ok) ok xs
  · intro c' h
    have ok' := Run.run_invariant (fun _ _ _ ok h => StackOp.apply_statusOk ok h) ok h
    rcases ok'.sFlag with h | h
    · simp [Cpu.stackPointers, Cpu.stackPointer, h]
    · simp [Cpu.stackPointers, Cpu.stackPointer, h]

theorem stack_pointers_refine_initial :
    (Run.run StackOp.apply (m68kSetCpuType Cpu.initial) [.write 1, .mode true, .write 2]).map
        (fun c => (c.stackPointers.pointer false, c.stackPointers.pointer true))
      = some (1, 2) := by
  have h := (stack_pointers_refine statusOk_setCpuType [.write 1, .mode true, .write 2]).1
  have hmap := congrArg (Option.map fun p : StackPointers => (p.pointer false, p.pointer true)) h
  rw [Option.map_map] at hmap
  exact hmap

end Kyacopycat
