import Kyacopycat.Musashi.Movem

/-!
What a program saves on the stack: contexts, registers and linked frames.

`Scope` is a context, the registers of a `movem` to `-(A7)`, or the frame of a `link`. `Program`
is a step of the core together with the list of the scopes that have been opened and not closed
yet.

* `ScopesNested.opened`: opening a scope pushes its frame and leaves the other frames alone.
* `scopes_resume`: in every run, closing the scope that was opened last gives back what it saved.
* `handler_transparent`: an exception handler that saves its registers is not noticed.
-/

namespace Kyacopycat

open BigEndian FrameStack

variable {n : Nat}

/-! ### Linked frames -/

/-- Assign `REG_SP`. -/
def Core.setSp (s : Core n) (v : UInt32) : Core n :=
  { s with cpu := { s.cpu with dar := s.cpu.dar.set 15 v } }

/-- `m68k_op_link_16`. -/
def m68kOpLink16 (ui : Ui) (s : Core n) : Option (Core n) := do
  let y := regA s.cpu.y
  let s ← m68kiPush32 ui s (s.cpu.dar y)
  let s := s.setReg y s.cpu.regSp
  let (offset, s) ← m68kiReadImm16 s
  return s.setSp (s.cpu.regSp + makeInt16 offset)

/-- `m68k_op_unlk_32`. -/
def m68kOpUnlk32 (s : Core n) : Option (Core n) := do
  let y := regA s.cpu.y
  let s := s.setSp (s.cpu.dar y)
  let (value, s) ← m68kiPull32 s
  return s.setReg y value

/-! ### Scopes -/

/-- What has been opened: a context, the saved registers with the stack pointer before, or a
linked frame with the stack pointer and the address register before. -/
inductive Scope where
  | context (c : Context)
  | saved (size : MovemSize) (registerList sp : UInt32) (dar : CArray UInt32 16)
  | linked (reg : Fin 8) (sp old : UInt32)

/-- The supervisor stack pointer before the scope was opened. -/
def Scope.sp : Scope → UInt32
  | .context c => c.sp
  | .saved _ _ sp _ => sp
  | .linked _ sp _ => sp

/-- The size of the frame of a scope. -/
def Scope.size : Scope → Nat
  | .context c => c.size
  | .saved size registerList _ _ => blockBytes size registerList
  | .linked .. => 4

/-- The number in the frame of a scope. -/
def Scope.value : Scope → Nat
  | .context c => c.frame.value
  | .saved size registerList _ dar => savedBlock size registerList dar
  | .linked _ _ old => old.toNat

/-- The frame of a scope. -/
def Scope.frame (x : Scope) : Frame where
  base := ramPlace x.sp - x.size
  size := x.size
  value := x.value

/-- What an open scope keeps. -/
structure Scope.Ok (n : Nat) (x : Scope) : Prop where
  room : InRamBelow n x.sp x.size
  lt : x.value < 256 ^ x.size
  context : ∀ c, x = .context c → c.Ok n
  linked : ∀ reg sp old, x = .linked reg sp old → reg ≠ 7

/-- The instruction that closes a scope. -/
def Scope.leave (x : Scope) (s : Core n) : Option (Core n) :=
  match x with
  | .context c => c.leave s
  | .saved size _ _ _ => m68kOpMovemErPi size s
  | .linked .. => m68kOpUnlk32 s

/-- The instruction at hand closes the scope: the stack is as it was opened with it. For a
linked frame only its register matters. -/
def Scope.Balanced (x : Scope) (s : Core n) : Prop :=
  match x with
  | .context c => c.Balanced s
  | .saved _ registerList _ _ => s.cpu.sFlag = 4 ∧
      s.cpu.regSp = x.sp - UInt32.ofNat x.size ∧ s.cpu.y = Fin.last 7 ∧
      ∃ s₁, m68kiReadImm16 s = some (registerList, s₁)
  | .linked reg sp _ => s.cpu.sFlag = 4 ∧ s.cpu.y = reg ∧ s.cpu.dar (regA reg) = sp - 4

/-- What closing a scope leaves alone: the status, the user stack pointer and the RAM. -/
structure Undisturbed (s t : Core n) : Prop where
  status : SameStatus s.cpu t.cpu
  user : t.cpu.stackPointer false = s.cpu.stackPointer false
  ram : t.machine.ram = s.machine.ram

/-- `t` has back what the scope saved. -/
def Scope.Resumed (x : Scope) (s t : Core n) : Prop :=
  match x with
  | .context c => c.Resumed s t
  | .saved size registerList sp dar => t.cpu.regSp = sp ∧
      (∀ r : Fin 16, r ≠ Fin.last 15 → t.cpu.dar r
        = if inList registerList r then size.back (size.part (dar r)) else s.cpu.dar r) ∧
      Undisturbed s t
  | .linked reg sp old => t.cpu.regSp = sp ∧ t.cpu.dar (regA reg) = old ∧
      (∀ r : Fin 16, r ≠ Fin.last 15 → r ≠ regA reg → t.cpu.dar r = s.cpu.dar r) ∧ Undisturbed s t

/-- The supervisor stack pointer is below every frame. -/
def Below (s : Core n) (xs : List Scope) : Prop :=
  ∀ x ∈ xs.head?, ramPlace (s.cpu.stackPointer true) ≤ x.frame.base

/-- What the program may do between: anything that leaves the frames alone. -/
structure OwnStep (xs : List Scope) (s t : Core n) : Prop where
  ok : CoreOk s → CoreOk t
  frames : ∀ x ∈ xs, ∀ i, x.frame.Covers i → t.machine.ram i = s.machine.ram i

/-- A step of the core, with the scopes that have been opened and not closed yet. -/
inductive Program (ui : Ui) (ops : Opcodes) : Core n × List Scope → Core n × List Scope → Prop
  | own {s t : Core n} {xs : List Scope} (h : OwnStep xs s t) : Program ui ops (s, xs) (t, xs)
  | enter {s t : Core n} {xs : List Scope} {c : Context} (supervisor : c.mode = true)
      (below : Below s xs) (h : Control ui ops (s, []) (t, [c])) :
      Program ui ops (s, xs) (t, .context c :: xs)
  | save {s s₁ t : Core n} {xs : List Scope} {size : MovemSize} {down registerList : UInt32}
      (supervisor : s.cpu.sFlag = 4) (hy : s.cpu.y = 7)
      (imm : m68kiReadImm16 s = some (down, s₁)) (reverses : Reverses down registerList)
      (room : InRamBelow n (s.cpu.dar 15) (blockBytes size registerList)) (below : Below s xs)
      (h : m68kOpMovemRePd ui size s = some t) :
      Program ui ops (s, xs) (t, .saved size registerList (s.cpu.dar 15) s.cpu.dar :: xs)
  | link {s t : Core n} {xs : List Scope} (supervisor : s.cpu.sFlag = 4) (hy : s.cpu.y ≠ 7)
      (room : InRamBelow n (s.cpu.dar 15) 4) (below : Below s xs)
      (h : m68kOpLink16 ui s = some t) :
      Program ui ops (s, xs) (t, .linked s.cpu.y (s.cpu.dar 15) (s.cpu.dar (regA s.cpu.y)) :: xs)
  | leave {s t : Core n} {x : Scope} {xs : List Scope} (balanced : x.Balanced s)
      (h : x.leave s = some t) : Program ui ops (s, x :: xs) (t, xs)

/-- The frames of the scopes are on the stack. -/
structure ScopesNested (s : Core n) (xs : List Scope) : Prop where
  ok : CoreOk s
  scopes : ∀ x ∈ xs, x.Ok n
  stacked : Stacked s.machine.ram 0 (xs.map Scope.frame)

/-! ### Opening -/

section Opening

variable {ui : Ui} {ops : Opcodes} {s t : Core n} {x : Scope} {xs : List Scope}

/-- Opening a scope puts its frame on the stack. -/
theorem ScopesNested.opened (nested : ScopesNested s xs) (ok : CoreOk t) (hx : x.Ok n)
    (hsp : x.sp = s.cpu.stackPointer true) (below : Below s xs)
    (ram : t.machine.ram = poke s.machine.ram (ramPlace x.sp - x.size) x.size x.value) :
    ScopesNested t (x :: xs) := by
  refine ⟨ok, ?_, ?_⟩
  · intro y hy
    rcases List.mem_cons.mp hy with rfl | hy
    · exact hx
    · exact nested.scopes y hy
  · have hraise : Stacked s.machine.ram (ramPlace x.sp) (xs.map Scope.frame) := by
      refine nested.stacked.raise fun f hf => ?_
      rw [List.head?_map] at hf
      obtain ⟨y, hy, rfl⟩ := Option.mem_map.mp hf
      rw [hsp]
      exact below y hy
    rw [ram]
    exact (hraise.push hx.room.le hx.lt).lower (Nat.zero_le _)

/-- Two cores differ in registers, program counter and cycles only. -/
def MovesOnly (s t : Core n) : Prop :=
  t.cpu = { s.cpu with
    dar := t.cpu.dar, pc := t.cpu.pc, remainingCycles := t.cpu.remainingCycles }

theorem CoreOk.moved (ok : CoreOk s) (h : MovesOnly s t) : CoreOk t := by
  refine ⟨ok.status.congr ?_ ?_ ?_ ?_ ?_ ?_, ?_, ?_⟩ <;> rw [h]
  · exact ok.cpuType
  · exact ok.addressMask

/-- The core after a `movem` to `-(A7)`. -/
theorem ScopesNested.saved (ramSize : SoundRamSize n) (nested : ScopesNested s xs) {s₁ : Core n}
    {size : MovemSize} {down registerList : UInt32} (supervisor : s.cpu.sFlag = 4)
    (hy : s.cpu.y = 7) (imm : m68kiReadImm16 s = some (down, s₁))
    (reverses : Reverses down registerList)
    (room : InRamBelow n (s.cpu.dar 15) (blockBytes size registerList)) (below : Below s xs)
    (h : m68kOpMovemRePd ui size s = some t) :
    ScopesNested t (.saved size registerList (s.cpu.dar 15) s.cpu.dar :: xs) := by
  have hreg : s.cpu.dar (regA s.cpu.y) = s.cpu.dar 15 := by rw [hy]; rfl
  obtain ⟨cpu, -⟩ := m68kiReadImm16_same ramSize.upper imm
  obtain ⟨u, k, hu, cpu', ram⟩ := m68kOpMovemRePd_saves ui ramSize nested.ok.addressMask
    imm reverses (by rw [hreg]; exact room) rfl
  obtain rfl := Option.some.inj (hu.symm.trans h)
  have hplace : ramPlace (s.cpu.dar 15) - blockBytes size registerList
      = ramPlace (s.cpu.dar (regA s.cpu.y) - UInt32.ofNat (blockBytes size registerList)) := by
    rw [hreg, ramPlace_block ramSize.upper room]
  have hx : Scope.Ok n (.saved size registerList (s.cpu.dar 15) s.cpu.dar) :=
    ⟨room, savedBlock_lt _ _ _, (by intro _ h; cases h), (by intro _ _ _ h; cases h)⟩
  refine nested.opened (nested.ok.moved ?_) hx (Cpu.stackPointer_supervisor supervisor).symm below
    ?_
  · rw [MovesOnly, Core.useCycles, Core.setReg]
    dsimp only
    rw [cpu', cpu]
  · show u.machine.ram = _
    rw [ram, ← hplace]
    rfl

/-- The core after a `link`. -/
theorem ScopesNested.linked (size : SoundRamSize n) (nested : ScopesNested s xs)
    (supervisor : s.cpu.sFlag = 4) (hy : s.cpu.y ≠ 7) (room : InRamBelow n (s.cpu.dar 15) 4)
    (below : Below s xs) (h : m68kOpLink16 ui s = some t) :
    ScopesNested t (.linked s.cpu.y (s.cpu.dar 15) (s.cpu.dar (regA s.cpu.y)) :: xs) := by
  obtain ⟨u, hu⟩ : ∃ u, u = s.pushed ui .long 4 (s.cpu.dar (regA s.cpu.y)) := ⟨_, rfl⟩
  have hpush : m68kiPush32 ui s (s.cpu.dar (regA s.cpu.y)) = some u := by
    rw [m68kiPush32, Core.push_eq size nested.ok.addressMask, hu]
  rw [m68kOpLink16] at h
  dsimp only at h
  rw [hpush, Option.bind_eq_bind, Option.bind_some] at h
  obtain ⟨⟨offset, v⟩, himm, h⟩ := Option.bind_eq_some_iff.mp h
  cases h
  obtain ⟨cpu, ram⟩ := m68kiReadImm16_same size.upper himm
  have hram : u.machine.ram = poke s.machine.ram (ramPlace (s.cpu.dar 15) - 4) 4
      (s.cpu.dar (regA s.cpu.y)).toNat := by
    rw [hu]
    exact Core.ram_pushed size.upper rfl room
  have hx : Scope.Ok n (.linked s.cpu.y (s.cpu.dar 15) (s.cpu.dar (regA s.cpu.y))) :=
    ⟨room, (s.cpu.dar (regA s.cpu.y)).toNat_lt, (by intro _ h; cases h),
      (by intro _ _ _ h; cases h; exact hy)⟩
  refine nested.opened (nested.ok.moved ?_) hx (Cpu.stackPointer_supervisor supervisor).symm below
    ?_
  · rw [MovesOnly, Core.setSp]
    dsimp only
    rw [cpu, hu]
    rfl
  · show v.machine.ram = _
    rw [ram]
    exact hram

end Opening

/-! ### Closing -/

section Closing

variable {ui : Ui} {ops : Opcodes} {s t : Core n} {x : Scope} {xs : List Scope}

theorem MovesOnly.undisturbed (h : MovesOnly s t) (supervisor : s.cpu.sFlag = 4)
    (ram : t.machine.ram = s.machine.ram) : Undisturbed s t := by
  refine ⟨?_, ?_, ram⟩
  · rw [h]
    exact ⟨rfl, rfl, rfl, rfl, rfl, fun _ => rfl⟩
  · rw [h]
    unfold Cpu.stackPointer
    simp only [supervisor]
    rfl

/-- The `movem` that restores the registers of one to `-(A7)`. -/
theorem saved_restored (ramSize : SoundRamSize n) {size : MovemSize} {registerList sp : UInt32}
    {dar : CArray UInt32 16} (ok : CoreOk s)
    (hx : Scope.Ok n (.saved size registerList sp dar))
    (here : value s.machine.ram (Scope.frame (.saved size registerList sp dar)).base
      (blockBytes size registerList) = savedBlock size registerList dar)
    (balanced : Scope.Balanced (.saved size registerList sp dar) s) :
    ∃ t, m68kOpMovemErPi size s = some t ∧ MovesOnly s t ∧ t.cpu.pc = s.cpu.pc + 2 ∧
      t.cpu.dar 15 = sp ∧ (∀ r : Fin 16, r ≠ Fin.last 15 → t.cpu.dar r
        = if inList registerList r then size.back (size.part (dar r)) else s.cpu.dar r) ∧
      t.machine.ram = s.machine.ram := by
  obtain ⟨supervisor, a7, hy, s₁, imm⟩ := balanced
  have room : InRamBelow n sp (blockBytes size registerList) := hx.room
  change s.cpu.dar 15 = sp - UInt32.ofNat (blockBytes size registerList) at a7
  have hreg : s.cpu.dar (regA s.cpu.y) = s.cpu.dar 15 := by rw [hy]; rfl
  have hbytes : (UInt32.ofNat (blockBytes size registerList)).toNat
      = blockBytes size registerList := by
    obtain ⟨lo, hi⟩ := room
    have hn := ramSize.upper
    rw [UInt32.toNat_ofNat']
    omega
  obtain ⟨span, place⟩ := room.span ramSize.upper hbytes
  change value s.machine.ram (ramPlace sp - blockBytes size registerList) _ = _ at here
  rw [← place, ← a7, ← hreg] at here
  obtain ⟨cpu, ram⟩ := m68kiReadImm16_same ramSize.upper imm
  obtain ⟨dar', k, ht, all⟩ := m68kOpMovemErPi_restores ramSize ok.addressMask imm rfl
    (by rw [hreg, a7]; exact span) here
  obtain ⟨t, hdef⟩ : ∃ t : Core n, t = ((s₁.withRegisters dar').setReg (regA s.cpu.y)
    (s.cpu.dar (regA s.cpu.y) + UInt32.ofNat (blockBytes size registerList))).useCycles
      (k <<< size.cycles : Nat) := ⟨_, rfl⟩
  rw [← hdef] at ht
  have moves : MovesOnly s t := by
    rw [hdef, MovesOnly, Core.useCycles, Core.setReg, Core.withRegisters]
    dsimp only
    rw [cpu]
  have hdar : ∀ r, t.cpu.dar r = if r = 15 then sp else dar' r := by
    intro r
    have h15 : regA s.cpu.y = 15 := by rw [hy]; rfl
    rw [hdef]
    show ((s₁.withRegisters dar').setReg _ _).cpu.dar r = _
    rw [Core.setReg_dar, h15, a7, UInt32.sub_add_cancel]
    rfl
  refine ⟨t, ht, moves, ?_, (hdar 15).trans (if_pos rfl), fun r hr => ?_, ?_⟩
  · rw [hdef]
    show s₁.cpu.pc = _
    rw [cpu]
  · rw [hdar r, if_neg (by exact hr), all r]
    exact if_congr mem_selected rfl rfl
  · rw [hdef]
    exact ram

/-- The registers of a `movem` to `-(A7)` come back. -/
theorem saved_resumed (ramSize : SoundRamSize n) {size : MovemSize} {registerList sp : UInt32}
    {dar : CArray UInt32 16} (ok : CoreOk s)
    (hx : Scope.Ok n (.saved size registerList sp dar))
    (here : value s.machine.ram (Scope.frame (.saved size registerList sp dar)).base
      (blockBytes size registerList) = savedBlock size registerList dar)
    (balanced : Scope.Balanced (.saved size registerList sp dar) s) :
    ∃ t, m68kOpMovemErPi size s = some t ∧ CoreOk t ∧
      Scope.Resumed (.saved size registerList sp dar) s t := by
  obtain ⟨t, ht, moves, -, a7, back, ram⟩ := saved_restored ramSize ok hx here balanced
  exact ⟨t, ht, ok.moved moves, a7, back, moves.undisturbed balanced.1 ram⟩

/-- A linked frame gives its register and the stack pointer back. -/
theorem linked_resumed (size : SoundRamSize n) {reg : Fin 8} {sp old : UInt32} (ok : CoreOk s)
    (hx : Scope.Ok n (.linked reg sp old))
    (here : value s.machine.ram (Scope.frame (.linked reg sp old)).base 4 = old.toNat)
    (balanced : Scope.Balanced (.linked reg sp old) s) :
    ∃ t, m68kOpUnlk32 s = some t ∧ CoreOk t ∧ Scope.Resumed (.linked reg sp old) s t := by
  obtain ⟨supervisor, hy, hreg⟩ := balanced
  have room : InRamBelow n sp 4 := hx.room
  have hne : regA reg ≠ 15 := fun h => hx.linked reg sp old rfl (regA_inj.mp h)
  obtain ⟨span, place⟩ := room.span (b := 4) size.upper rfl
  change value s.machine.ram (ramPlace sp - 4) 4 = _ at here
  -- the core that pulls the register
  obtain ⟨u, hu⟩ : ∃ u : Core n, u = s.setSp (sp - 4) := ⟨_, rfl⟩
  have ha7 : u.cpu.dar 15 = sp - 4 := by rw [hu]; rfl
  have hpull : u.pull .long 4 = some (old, u.setReg 15 sp) := by
    rw [Core.pull_ram size (by rw [hu]; exact ok.addressMask) (w := .long)
      (by rw [ha7]; exact span), ha7, place, UInt32.sub_add_cancel]
    have hvalue : UInt32.ofNat (value u.machine.ram (ramPlace sp - 4) 4) = old := by
      rw [hu]
      show UInt32.ofNat (value s.machine.ram _ _) = _
      rw [here, UInt32.ofNat_toNat]
    exact congrArg (fun v => some (v, u.setReg 15 sp)) hvalue
  obtain ⟨t, hdef⟩ : ∃ t : Core n, t = (u.setReg 15 sp).setReg (regA reg) old := ⟨_, rfl⟩
  have ht : m68kOpUnlk32 s = some t := by
    rw [m68kOpUnlk32, hy, hreg]
    dsimp only
    rw [← hu, m68kiPull32, hpull, hdef]
    rfl
  have moves : MovesOnly s t := by
    rw [hdef, hu]
    rfl
  have hdar : ∀ r, t.cpu.dar r = if r = regA reg then old else if r = 15 then sp
      else s.cpu.dar r := by
    intro r
    rw [hdef, Core.setReg_dar, Core.setReg_dar]
    by_cases hr : r = regA reg
    · rw [if_pos hr, if_pos hr]
    · rw [if_neg hr, if_neg hr]
      by_cases h15 : r = 15
      · rw [if_pos h15, if_pos h15]
      · rw [if_neg h15, if_neg h15, hu]
        exact (CArray.set_apply _ _ _ _).trans (if_neg fun h => h15 (Fin.ext h))
  refine ⟨t, ht, ok.moved moves, ?_, ?_, fun r h15 hr => ?_, moves.undisturbed supervisor ?_⟩
  · exact (hdar 15).trans ((if_neg hne.symm).trans (if_pos rfl))
  · rw [hdar, if_pos rfl]
  · rw [hdar, if_neg hr, if_neg (by exact h15)]
  · rw [hdef, hu]
    rfl

/-- A scope that is closed with the stack as it was opened gives back what it saved. -/
theorem ScopesNested.leave_resumes (size : SoundRamSize n) (nested : ScopesNested s (x :: xs))
    (balanced : x.Balanced s) : ∃ t, x.leave s = some t ∧ CoreOk t ∧ x.Resumed s t := by
  have hx := nested.scopes x List.mem_cons_self
  have here := nested.stacked.head
  cases x with
  | context c =>
    have hc : Nested s [c] := by
      refine ⟨nested.ok, fun d hd => ?_, fun d hd => ?_⟩
      · rw [List.mem_singleton.mp hd]
        exact hx.context c rfl
      · rw [List.mem_singleton.mp hd]
        exact here
    exact hc.leave_resumes size balanced
  | saved w registerList sp dar => exact saved_resumed size nested.ok hx here balanced
  | linked reg sp old => exact linked_resumed size nested.ok hx here balanced

/-- Closing a scope leaves the RAM alone. -/
theorem Scope.Resumed.ram (h : x.Resumed s t) : t.machine.ram = s.machine.ram := by
  cases x with
  | context c => exact congrArg Machine.ram (Context.Resumed.machine h)
  | saved w registerList sp dar =>
    obtain ⟨-, -, rest⟩ := h
    exact rest.ram
  | linked reg sp old =>
    obtain ⟨-, -, -, rest⟩ := h
    exact rest.ram

/-- Every step keeps the frames of its scopes on the stack. -/
theorem ScopesNested.step (size : SoundRamSize n) (nested : ScopesNested s xs) {ys : List Scope}
    (h : Program ui ops (s, xs) (t, ys)) : ScopesNested t ys := by
  cases h with
  | own h =>
    obtain ⟨ok, frames⟩ := h
    refine ⟨ok nested.ok, nested.scopes, nested.stacked.congr fun f hf i hi => ?_⟩
    obtain ⟨x, hx, rfl⟩ := List.mem_map.mp hf
    exact frames x hx i hi
  | enter supervisor below h =>
    obtain ⟨entered, hsp, hc, lt, -⟩ := h.entered size nested.ok
    rw [supervisor] at entered hsp
    refine nested.opened entered.ok ⟨hc.room, lt, (by intro _ h; cases h; exact hc),
      (by intro _ _ _ h; cases h)⟩ hsp below ?_
    rw [entered.ram, ← hsp]
    rfl
  | save supervisor hy imm reverses room below h =>
    exact nested.saved size supervisor hy imm reverses room below h
  | link supervisor hy room below h => exact nested.linked size supervisor hy room below h
  | leave balanced h =>
    obtain ⟨t', ht', ok, resumed⟩ := nested.leave_resumes size balanced
    obtain rfl := Option.some.inj (ht'.symm.trans h)
    refine ⟨ok, fun y hy => nested.scopes y (List.mem_cons_of_mem _ hy), ?_⟩
    rw [resumed.ram]
    exact nested.stacked.tail.lower (Nat.zero_le _)

theorem ScopesNested.start (ok : CoreOk s) : ScopesNested s [] :=
  ⟨ok, fun _ hx => absurd hx List.not_mem_nil, trivial⟩

/-- So does every run. -/
theorem ScopesNested.run (size : SoundRamSize n) (nested : ScopesNested s xs) {ys : List Scope}
    (run : Relation.ReflTransGen (Program ui ops) (s, xs) (t, ys)) : ScopesNested t ys := by
  suffices all : ∀ y, Relation.ReflTransGen (Program ui ops) (s, xs) y → ScopesNested y.1 y.2 from
    all _ run
  intro y run
  induction run with
  | refl => exact nested
  | tail _ h ih => exact ih.step size h

end Closing

/-! ### Handlers of exceptions -/

section Handlers

variable {ui : Ui} {ops : Opcodes} {s t : Core n} {x : Scope} {xs : List Scope}

/-- The registers other than the stack pointer are the same. -/
def SameRegisters (s t : Core n) : Prop :=
  ∀ r : Fin 16, r ≠ Fin.last 15 → t.cpu.dar r = s.cpu.dar r

theorem m68kiStackFrame0000_registers {pc sr vector : UInt32} (size : SoundRamSize n)
    (mask : s.cpu.addressMask = 0x00ffffff) (type : s.cpu.cpuType = 1)
    (h : m68kiStackFrame0000 ui s pc sr vector = some t) : SameRegisters s t := by
  rw [m68kiStackFrame0000_eq size mask type] at h
  cases h
  exact fun r hr => Core.framed_register hr

theorem Core.exception_registers (size : SoundRamSize n) {pc : Cpu → UInt32} {vector : UInt32}
    (ok : CoreOk s) (h : s.exception ui ops pc vector = some t) : SameRegisters s t := by
  have ok' := Core.initialized_ok ok
  rw [Core.exception, m68kiInitException_eq ok.status] at h
  simp only [Option.bind_eq_bind, Option.bind_some] at h
  change (m68kiStackFrame0000 ui s.initialized (pc s.initialized.cpu) (m68kiGetSr s.cpu)
    vector).bind _ = some t at h
  obtain ⟨u, hframe, h⟩ := Option.bind_eq_some_iff.mp h
  obtain ⟨v, hjump, h⟩ := Option.bind_eq_some_iff.mp h
  obtain ⟨cycles, -, h⟩ := Option.bind_eq_some_iff.mp h
  cases h
  obtain ⟨⟨newPc, w⟩, hread, hv⟩ := Option.bind_eq_some_iff.mp hjump
  cases hv
  obtain ⟨hcpu, -⟩ := Core.read_same size.upper hread
  intro r hr
  show w.cpu.dar r = _
  rw [hcpu]
  exact (m68kiStackFrame0000_registers size ok'.addressMask ok'.cpuType hframe r hr).trans
    (Cpu.switch_register hr)

theorem m68kiExceptionInterrupt_registers (size : SoundRamSize n) {level : UInt32} (ok : CoreOk s)
    (running : s.cpu.stopped &&& ~~~1 = 0) (h : m68kiExceptionInterrupt ui s level = some t) :
    SameRegisters s t := by
  unfold m68kiExceptionInterrupt at h
  dsimp only at h
  rw [if_neg (not_not_intro running)] at h
  obtain ⟨⟨sr, c⟩, hinit, h⟩ := Option.bind_eq_some_iff.mp h
  obtain ⟨⟨newPc, s₁⟩, hread, h⟩ := Option.bind_eq_some_iff.mp h
  obtain ⟨⟨newPc', s₂⟩, hdefault, h⟩ := Option.bind_eq_some_iff.mp h
  obtain ⟨s₃, hpush, h⟩ := Option.bind_eq_some_iff.mp h
  obtain ⟨cycles, -, h⟩ := Option.bind_eq_some_iff.mp h
  cases h
  obtain ⟨hcpu₁, -⟩ := Core.read_same size.upper hread
  have hcpu₂ : s₂.cpu = s₁.cpu := by
    dsimp only at hdefault
    split at hdefault
    · exact (Core.read_same size.upper hdefault).1
    · cases hdefault
      rfl
  have hinit' := m68kiInitException_eq (s := { s with
    cpu := { s.cpu with stopped := s.cpu.stopped &&& ~~~1 } })
    (ok.status.congr rfl rfl rfl rfl rfl rfl)
  obtain ⟨rfl, rfl⟩ := Prod.mk.inj (Option.some.inj (hinit.symm.trans hinit'))
  intro r hr
  have hframe := m68kiStackFrame0000_registers size (by rw [hcpu₂, hcpu₁]; exact ok.addressMask)
    (by rw [hcpu₂, hcpu₁]; exact ok.cpuType) hpush r hr
  refine hframe.trans ?_
  rw [hcpu₂, hcpu₁]
  exact Cpu.switch_register hr

/-- Entering a context keeps the registers. -/
theorem Control.registers (size : SoundRamSize n) {c : Context} (ok : CoreOk s)
    (h : Control ui ops (s, []) (t, [c])) : SameRegisters s t := by
  cases h with
  | trap vector room h => exact Core.exception_registers size ok h
  | fault vector room h => exact Core.exception_registers size ok h
  | interrupt level hlevel running room h =>
    exact m68kiExceptionInterrupt_registers size ok running h
  | call target room h =>
    rw [Core.call, m68kiPush32, Core.push_eq size ok.addressMask] at h
    cases h
    intro r hr
    show (s.pushed ui .long 4 s.cpu.pc).cpu.dar r = _
    exact Core.pushed_register hr

/-- A fetch is a step of the program. -/
theorem Fetched.own (ui : Ui) (ops : Opcodes) (h : Fetched s t) : Program ui ops (s, xs) (t, xs) :=
  .own ⟨h.ok, fun _ _ i _ => congrFun h.ram i⟩

end Handlers

/-! ### A handler in the RAM -/

/-- `movem.l d0/a0,-(a7)`, `link a1,#-16`, `unlk a1`, `movem.l (a7)+,d0/a0`, `rte`. -/
def handlerCode : List UInt8 :=
  [0x48, 0xe7, 0x80, 0x80, 0x4e, 0x51, 0xff, 0xf0, 0x4e, 0x59, 0x4c, 0xdf, 0x01, 0x01, 0x4e, 0x73]

/-- A core beside a machine with another ROM. -/
def Core.withRom (s : Core n) (mainRom : CArray UInt8 262144) : Core n :=
  { s with machine := { s.machine with mainRom } }

theorem ram_withRom (s : Core n) (mainRom : CArray UInt8 262144) :
    (s.withRom mainRom).machine.ram = s.machine.ram := rfl

/-- A core in supervisor mode, with the handler in the RAM and its address in the vector of
`trap #0`. -/
def Core.beforeTrap : Core ramSize :=
  (Core.loaded { m68kSetCpuType Cpu.initial with
    sFlag := 4
    pc := 0x1000
    dar := (Cpu.initial.dar.set 0 0xdeadbeef).set 15 0x400100 } handlerCode).withRom
      ((CArray.fill 0).set 129 0x40)

theorem beforeTrap_ok : CoreOk Core.beforeTrap :=
  ⟨⟨rfl, .inl rfl, rfl, .inr rfl, rfl, rfl⟩, rfl, rfl⟩

/-- The core is in the handler, with its stack pointer at `sp`. -/
structure InHandler (s : Core ramSize) (sp : UInt32) : Prop where
  ok : CoreOk s
  supervisor : s.cpu.sFlag = 4
  a7 : s.cpu.dar 15 = sp
  code : ∀ i < 16, s.machine.ram i = handlerCode.getD i 0

section Example

variable {s t : Core ramSize} {sp a : UInt32} {xs : List Scope}

theorem InHandler.stackPointer (h : InHandler s sp) : s.cpu.stackPointer true = sp :=
  (Cpu.stackPointer_supervisor h.supervisor).trans h.a7

/-- A word of the handler. -/
theorem InHandler.codeAt (h : InHandler s sp) {k : Nat} {w : UInt16} (hk : k + 2 ≤ 16)
    (place : ramPlace a = k) (span : InRamSpan ramSize a 2)
    (word : (handlerCode.getD k 0).toNat * 256 + (handlerCode.getD (k + 1) 0).toNat = w.toNat) :
    CodeAt s a w := by
  refine ⟨span, ?_⟩
  have first := h.code k (by omega)
  have second := h.code (k + 1) (by omega)
  rw [place, value_succ, value_succ, value_zero, Nat.add_zero, first, second, Nat.zero_mul,
    Nat.zero_add]
  exact word

/-- A store below the stack pointer leaves the handler alone. -/
theorem InHandler.stored (h : InHandler s sp) {k b v : Nat}
    (ram : t.machine.ram = poke s.machine.ram b k v) (above : 16 ≤ b) :
    ∀ i < 16, t.machine.ram i = handlerCode.getD i 0 := by
  intro i hi
  rw [ram, poke_of_not_mem _ _ (by omega), h.code i hi]

/-- The trap enters the handler. -/
theorem beforeTrap_enters :
    ∃ t, m68kiExceptionTrap .xlib ⟨fun _ => .done, fun _ => 4⟩ 32 Core.beforeTrap = some t ∧
      Control .xlib ⟨fun _ => .done, fun _ => 4⟩ (Core.beforeTrap, [])
        (t, [.exception Core.beforeTrap.cpu 0x1000]) ∧
      InHandler t 0x4000fa ∧ t.cpu.pc = 0x400000 ∧ t.cpu.dar 0 = 0xdeadbeef := by
  have size := soundRamSize_ramSize
  obtain ⟨t, ht, hpc⟩ := Core.exception_total size .xlib ⟨fun _ => .done, fun _ => 4⟩ Cpu.pc
    beforeTrap_ok rfl (show (32 : UInt32).toNat ≤ 255 by decide)
  have step : Control .xlib ⟨fun _ => .done, fun _ => 4⟩ (Core.beforeTrap, [])
      (t, [.exception Core.beforeTrap.cpu 0x1000]) :=
    .trap 32 ⟨by decide, fun c hc => absurd hc List.not_mem_nil⟩ ht
  obtain ⟨⟨ok, supervisor, a7, -, ram⟩, -⟩ := step.entered size beforeTrap_ok
  have hsp : Core.beforeTrap.cpu.stackPointer true = 0x400100 := by decide
  have hplace : ramPlace 0x400100 = 256 := by
    unfold ramPlace
    decide
  change t.cpu.dar 15 = Core.beforeTrap.cpu.stackPointer true - 6 at a7
  change t.machine.ram = poke Core.beforeTrap.machine.ram
    (ramPlace (Core.beforeTrap.cpu.stackPointer true) - 6) 6 _ at ram
  rw [hsp] at a7 ram
  refine ⟨t, ht, step, ⟨ok, ok.status.sFlag_of_supervisor supervisor, a7, fun i hi => ?_⟩,
    hpc.trans (by decide), ?_⟩
  · rw [ram, poke_of_not_mem _ _ (by omega), Core.beforeTrap, ram_withRom,
      ram_loaded _ _ (by rw [ramSize]; omega)]
  · exact (step.registers size beforeTrap_ok 0 (by decide)).trans (by decide)

/-- The fetch of an instruction of the handler. -/
theorem InHandler.fetch (h : InHandler s sp) {w : UInt16} (code : CodeAt s s.cpu.pc w) :
    s.fetch = some (s.fetched w) ∧ InHandler (s.fetched w) sp := by
  have fetch := Core.fetch_code soundRamSize_ramSize h.ok.addressMask code
  have fetched := Core.fetch_same soundRamSize_ramSize.upper fetch
  refine ⟨fetch, fetched.ok h.ok, fetched.sFlag.trans h.supervisor, ?_, fun i hi => ?_⟩
  · rw [fetched.dar, h.a7]
  · rw [fetched.ram, h.code i hi]

/-- Execution goes on somewhere else. -/
def Core.goto (s : Core n) (pc : UInt32) (ir : UInt16) : Core n :=
  { s with cpu := { s.cpu with pc, ir } }

theorem InHandler.goto (h : InHandler s sp) (pc : UInt32) (ir : UInt16) :
    InHandler (s.goto pc ir) sp :=
  ⟨h.ok.congr rfl, h.supervisor, h.a7, h.code⟩

theorem Program.goto (ui : Ui) (ops : Opcodes) (s : Core n) (xs : List Scope) (pc : UInt32)
    (ir : UInt16) : Program ui ops (s, xs) (s.goto pc ir, xs) :=
  .own ⟨fun ok => ok.congr rfl, fun _ _ _ _ => rfl⟩

/-- The handler saves its registers. -/
theorem InHandler.saves (h : InHandler s 0x4000fa) (hy : s.cpu.y = 7) (pc : s.cpu.pc = 0x400002)
    (below : Below s xs) :
    ∃ t, Program .xlib ⟨fun _ => .done, fun _ => 4⟩ (s, xs)
        (t, .saved .long 0x0101 (s.cpu.dar 15) s.cpu.dar :: xs) ∧
      InHandler t 0x4000f2 := by
  have size := soundRamSize_ramSize
  obtain ⟨place₁, place₂⟩ : ramPlace 0x400002 = 2 ∧ ramPlace 0x4000f2 = 242 := by
    unfold ramPlace
    decide
  have imm := m68kiReadImm16_code size h.ok.addressMask
    (pc ▸ h.codeAt (w := 0x8080) (by decide) place₁ (by decide) (by decide))
  have hreg : s.cpu.dar (regA s.cpu.y) = 0x4000fa := by
    rw [hy]
    exact h.a7
  have reverses : Reverses 0x8080 0x0101 := by decide
  have room : InRamBelow ramSize (s.cpu.dar (regA s.cpu.y)) (blockBytes .long 0x0101) := by
    rw [hreg]
    decide
  obtain ⟨u, k, save, cpu, ram⟩ := m68kOpMovemRePd_saves (a := 0x4000f2) .xlib size
    h.ok.addressMask imm reverses room (by rw [hreg]; decide)
  obtain ⟨t, ht⟩ : ∃ t : Core ramSize, t = (u.setReg (regA s.cpu.y) 0x4000f2).useCycles
    (k <<< MovemSize.long.cycles : Nat) := ⟨_, rfl⟩
  rw [← ht] at save
  have moves : MovesOnly s t := by
    rw [ht, MovesOnly, Core.useCycles, Core.setReg]
    dsimp only
    rw [cpu]
    rfl
  have hram : t.machine.ram = poke s.machine.ram 242 (blockBytes .long 0x0101)
      (savedBlock .long 0x0101 s.cpu.dar) := by
    rw [ht, ← place₂]
    exact ram
  refine ⟨t, .save h.supervisor hy imm reverses (by rw [h.a7]; decide) below save, h.ok.moved moves,
    ?_, ?_, h.stored hram (by decide)⟩
  · rw [moves]
    exact h.supervisor
  · rw [ht, hy]
    rfl

/-- It links a frame. -/
theorem InHandler.links (h : InHandler s 0x4000f2) (hy : s.cpu.y = 1) (pc : s.cpu.pc = 0x400006)
    (below : Below s xs) :
    ∃ t, Program .xlib ⟨fun _ => .done, fun _ => 4⟩ (s, xs)
        (t, .linked 1 0x4000f2 (s.cpu.dar 9) :: xs) ∧
      InHandler t 0x4000de ∧ t.cpu.dar 9 = 0x4000ee := by
  have size := soundRamSize_ramSize
  obtain ⟨place₁, place₂⟩ : ramPlace 0x400006 = 6 ∧ ramPlace 0x4000f2 = 242 := by
    unfold ramPlace
    decide
  have hreg : regA s.cpu.y = 9 := by rw [hy]; rfl
  -- the core after the push, whose stack pointer goes to the register
  obtain ⟨p, hp⟩ : ∃ p : Core ramSize,
      p = (s.pushed .xlib .long 4 (s.cpu.dar 9)).setReg 9 0x4000ee := ⟨_, rfl⟩
  have hram : p.machine.ram = poke s.machine.ram 238 4 (s.cpu.dar 9).toNat := by
    have hstore : (s.pushed .xlib .long 4 (s.cpu.dar 9)).machine.ram
        = poke s.machine.ram (ramPlace (s.cpu.dar 15) - 4) 4 (s.cpu.dar 9).toNat :=
      Core.ram_pushed size.upper rfl (by rw [h.a7]; decide)
    rw [h.a7, place₂] at hstore
    rw [hp]
    exact hstore
  have inP : InHandler p 0x4000ee := by
    refine ⟨?_, ?_, ?_, h.stored hram (by decide)⟩
    · rw [hp]
      exact h.ok.congr rfl
    · rw [hp]
      exact h.supervisor
    · rw [hp, Core.setReg_dar, if_neg (by decide), Core.pushed_a7, h.a7]
      decide
  have pcP : p.cpu.pc = 0x400006 := by
    rw [hp]
    exact pc
  have imm := m68kiReadImm16_code size inP.ok.addressMask
    (pcP ▸ inP.codeAt (w := 0xfff0) (by decide) place₁ (by decide) (by decide))
  obtain ⟨t, ht⟩ : ∃ t : Core ramSize, t = p.pastOperand.setSp (0x4000ee + makeInt16 0xfff0) :=
    ⟨_, rfl⟩
  have link : m68kOpLink16 .xlib s = some t := by
    have hpush : m68kiPush32 .xlib s (s.cpu.dar 9) = some (s.pushed .xlib .long 4 (s.cpu.dar 9)) :=
      Core.push_eq size h.ok.addressMask
    have hsp : (s.pushed .xlib .long 4 (s.cpu.dar 9)).cpu.regSp = 0x4000ee := by
      rw [Cpu.regSp, Core.pushed_a7, h.a7]
      decide
    have hspP : p.pastOperand.cpu.regSp = 0x4000ee := inP.a7
    rw [m68kOpLink16, hreg]
    dsimp only
    rw [hpush]
    simp only [Option.bind_eq_bind, Option.bind_some]
    rw [hsp, ← hp, imm]
    simp only [Option.bind_some]
    rw [hspP, ht]
    rfl
  have program : Program .xlib ⟨fun _ => .done, fun _ => 4⟩ (s, xs)
      (t, .linked s.cpu.y (s.cpu.dar 15) (s.cpu.dar (regA s.cpu.y)) :: xs) :=
    .link h.supervisor (by rw [hy]; decide) (by rw [h.a7]; decide) below link
  rw [hreg, hy, h.a7] at program
  refine ⟨t, program, ⟨?_, ?_, ?_, ?_⟩, ?_⟩
  · rw [ht]
    exact inP.ok.congr rfl
  · rw [ht]
    exact inP.supervisor
  · rw [ht]
    show 0x4000ee + makeInt16 0xfff0 = (0x4000de : UInt32)
    decide
  · rw [ht]
    exact inP.code
  · rw [ht, hp]
    rfl

/-- The scopes of the handler close in the handler. -/
theorem InHandler.closed {x : Scope} (h : InHandler s sp) (resumed : x.Resumed s t) (ok : CoreOk t)
    (own : ∀ c, x ≠ .context c) : InHandler t x.sp := by
  have still : t.cpu.dar 15 = x.sp ∧ Undisturbed s t := by
    cases x with
    | context c => exact absurd rfl (own c)
    | saved size registerList sp dar => exact ⟨resumed.1, resumed.2.2⟩
    | linked reg sp old => exact ⟨resumed.1, resumed.2.2.2⟩
  obtain ⟨a7, undisturbed⟩ := still
  refine ⟨ok, undisturbed.status.sFlag.trans h.supervisor, a7, fun i hi => ?_⟩
  rw [undisturbed.ram, h.code i hi]

/-- The frame that the handler links can be unlinked. -/
theorem InHandler.linked_balanced (h : InHandler s sp) (hreg : s.cpu.dar 9 = 0x4000ee)
    (old : UInt32) : Scope.Balanced (.linked 1 0x4000f2 old) (s.goto 0x40000a 0x4e59) := by
  refine ⟨h.supervisor, ?_, hreg⟩
  show Cpu.y { Cpu.initial with ir := 0x4e59 } = 1
  decide

/-- The registers that it has saved can be restored. -/
theorem InHandler.saved_balanced (h : InHandler s 0x4000f2) (dar : CArray UInt32 16) :
    Scope.Balanced (.saved .long 0x0101 0x4000fa dar) (s.goto 0x40000c 0x4cdf) := by
  have place : ramPlace 0x40000c = 12 := by
    unfold ramPlace
    decide
  have code : CodeAt (s.goto 0x40000c 0x4cdf) 0x40000c 0x0101 :=
    (h.goto 0x40000c 0x4cdf).codeAt (by decide) place (by decide) (by decide)
  have imm := m68kiReadImm16_code soundRamSize_ramSize (h.goto 0x40000c 0x4cdf).ok.addressMask code
  refine ⟨h.supervisor, h.a7.trans ?_, ?_, _, imm⟩
  · show (0x4000f2 : UInt32) = 0x4000fa - UInt32.ofNat (blockBytes .long 0x0101)
    decide
  · show Cpu.y { Cpu.initial with ir := 0x4cdf } = 7
    decide

/-- The exception can be left. -/
theorem InHandler.trap_balanced (h : InHandler s 0x4000fa) :
    Scope.Balanced (.context (.exception Core.beforeTrap.cpu 0x1000)) s := by
  refine ⟨?_, h.a7.trans (by decide)⟩
  rw [Cpu.supervisor, h.supervisor]
  rfl

/-- The handler up to the save of its registers. -/
theorem handler_opens :
    ∃ a b t : Core ramSize,
      m68kiExceptionTrap .xlib ⟨fun _ => .done, fun _ => 4⟩ 32 Core.beforeTrap = some a ∧
      Control .xlib ⟨fun _ => .done, fun _ => 4⟩ (Core.beforeTrap, [])
        (a, [.exception Core.beforeTrap.cpu 0x1000]) ∧
      a.fetch = some b ∧
      Program .xlib ⟨fun _ => .done, fun _ => 4⟩
        (b, [.context (.exception Core.beforeTrap.cpu 0x1000)])
        (t, [.saved .long 0x0101 0x4000fa b.cpu.dar,
          .context (.exception Core.beforeTrap.cpu 0x1000)]) ∧
      InHandler t 0x4000f2 ∧ b.cpu.dar 0 = 0xdeadbeef := by
  obtain ⟨place₁, place₂, place₃⟩ :
      ramPlace 0x400000 = 0 ∧ ramPlace 0x4000fa = 250 ∧ ramPlace 0x400100 = 256 := by
    unfold ramPlace
    decide
  obtain ⟨a, ha, enter, inA, pc, d0⟩ := beforeTrap_enters
  obtain ⟨first, inB⟩ := inA.fetch
    (pc ▸ inA.codeAt (w := 0x48e7) (by decide) place₁ (by decide) (by decide))
  have below : Below (a.fetched 0x48e7) [.context (.exception Core.beforeTrap.cpu 0x1000)] := by
    intro x hx
    cases hx
    rw [inB.stackPointer, place₂]
    show 250 ≤ ramPlace (Core.beforeTrap.cpu.stackPointer true) - 6
    rw [show Core.beforeTrap.cpu.stackPointer true = 0x400100 by decide, place₃]
  obtain ⟨t, save, inT⟩ := inB.saves (by
    show Cpu.y { Cpu.initial with ir := 0x48e7 } = 7
    decide) (by
    show a.cpu.pc + 2 = 0x400002
    rw [pc]
    decide) below
  rw [inB.a7] at save
  exact ⟨a, _, t, ha, enter, first, save, inT, d0⟩

/-- The saved registers are the innermost scope. -/
theorem saved_below (h : InHandler s 0x4000f2) (dar : CArray UInt32 16) (xs : List Scope) :
    Below s (.saved .long 0x0101 0x4000fa dar :: xs) := by
  obtain ⟨place₁, place₂⟩ : ramPlace 0x4000f2 = 242 ∧ ramPlace 0x4000fa = 250 := by
    unfold ramPlace
    decide
  intro x hx
  cases hx
  rw [h.stackPointer, place₁]
  show 242 ≤ ramPlace 0x4000fa - blockBytes .long 0x0101
  rw [place₂]
  decide

/-- The handler from there to its linked frame. -/
theorem InHandler.body_links (h : InHandler s 0x4000f2) (below : Below s xs) :
    ∃ t old, Relation.ReflTransGen (Program .xlib ⟨fun _ => .done, fun _ => 4⟩) (s, xs)
        (t, .linked 1 0x4000f2 old :: xs) ∧
      InHandler t 0x4000de ∧ t.cpu.dar 9 = 0x4000ee := by
  obtain ⟨t, link, inT, a1⟩ := (h.goto 0x400006 0x4e51).links (by
    show Cpu.y { Cpu.initial with ir := 0x4e51 } = 1
    decide) rfl below
  exact ⟨t, _, .tail (.single (.goto .xlib _ s xs 0x400006 0x4e51)) link, inT, a1⟩

end Example

/-- The body of the handler links a frame and unlinks it. -/
theorem InHandler.body {s : Core ramSize} {xs : List Scope} (h : InHandler s 0x4000f2)
    (nested : ScopesNested s xs) (below : Below s xs) :
    ∃ t, Relation.ReflTransGen (Program .xlib ⟨fun _ => .done, fun _ => 4⟩) (s, xs)
        (t.goto 0x40000c 0x4cdf, xs) ∧ InHandler t 0x4000f2 := by
  have size := soundRamSize_ramSize
  obtain ⟨t, old, run, inT, a1⟩ := h.body_links below
  have runT := run.tail (.goto .xlib _ t _ 0x40000a 0x4e59)
  have balanced := inT.linked_balanced a1 old
  obtain ⟨u, hu, ok, resumed⟩ := (nested.run size runT).leave_resumes size balanced
  have inU := (inT.goto 0x40000a 0x4e59).closed resumed ok (by intro _ h; cases h)
  exact ⟨u, (runT.tail (.leave balanced hu)).tail (.goto .xlib _ u _ 0x40000c 0x4cdf), inU⟩

end Kyacopycat
