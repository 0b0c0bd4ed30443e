import Kyacopycat.Lib.Mailbox
import Kyacopycat.WarmBoot

/-!
The timer interrupt over whole runs.

The main loop requests level 1 at the end of every slice, and the core services a request when a
check finds it above the mask. The pins remember one request: they are a mailbox with one place,
which `Serves` and `Running.step_pins` say of the steps of the emulator.

* `timer_interrupts`: every interrupt after the warm boot answers a request of its own, and every
  request is answered, pending, or merged with a later one.
* `timer_interrupts_once`: no request is merged while the guest starts its slices unmasked.
-/

namespace Kyacopycat

open Run History

variable {n : Nat}

/-! ### Requests and services -/

/-- What happens on the interrupt pins. -/
inductive PinEvent where
  | request
  | service (level : UInt32)
  deriving DecidableEq, Repr

/-- The pins as a mailbox. -/
def PinEvent.mail : PinEvent → Mailbox.Event
  | .request => .put
  | .service _ => .take

/-- The interrupts that a log says were serviced. -/
def services (log : List CoreEvent) : List PinEvent :=
  (log.filterMap CoreEvent.level).map .service

/-- What a step that leads from `r` to `r'` does on the pins. -/
def RunStep.pinEvents (r r' : Running n) : RunStep → List PinEvent
  | .endSlice _ _ => [.request]
  | .beginExecute | .instruction => services (r'.core.log.drop r.core.log.length)

/-- What a run does on the pins. -/
def pinEvents (ui : Ui) (ops : Opcodes) : Running n → List RunStep → List PinEvent
  | _, [] => []
  | r, x :: xs =>
    match r.step ui ops x with
    | some r' => x.pinEvents r r' ++ pinEvents ui ops r' xs
    | none => []

theorem services_append (log log' : List CoreEvent) :
    services (log ++ log') = services log ++ services log' := by
  rw [services, List.filterMap_append, List.map_append]
  rfl

/-! ### The pins -/

/-- Level 7 is not pending, and the pins carry level 1 or nothing. -/
structure Pins (c : Cpu) (pending : Bool) : Prop where
  nmiPending : c.nmiPending = 0
  intLevel : c.intLevel = if pending then 0x0100 else 0

/-- Between `s` and `t` the core has serviced requests of the timer, if any, and the pins have
gone from `pending` to `pending'`. -/
structure Serves (s t : Core n) (pending pending' : Bool) : Prop where
  pins : Pins t.cpu pending'
  log : ∃ es, t.log = s.log ++ es ∧ (∀ e ∈ services es, e = .service 1) ∧
    run Mailbox.step pending ((services es).map PinEvent.mail) = some pending'

section Serves

variable {s t u : Core n} {b b' b'' : Bool}

theorem Serves.trans (h : Serves s t b b') (h' : Serves t u b' b'') : Serves s u b b'' := by
  obtain ⟨es, hes, level, hrun⟩ := h.log
  obtain ⟨es', hes', level', hrun'⟩ := h'.log
  refine ⟨h'.pins, es ++ es', by rw [hes', hes, List.append_assoc], ?_, ?_⟩
  · rw [services_append]
    exact fun e he => (List.mem_append.mp he).elim (level e) (level' e)
  · rw [services_append, List.map_append, run_append, hrun]
    exact hrun'

/-- Nothing is serviced. -/
theorem Serves.of_log_eq (pins : Pins t.cpu b) (log : t.log = s.log) : Serves s t b b :=
  ⟨pins, [], by rw [log, List.append_nil], fun _ he => absurd he List.not_mem_nil, rfl⟩

/-- Only the log of the first state matters. -/
theorem Serves.of_start {s' : Core n} (h : Serves s' t b b') (log : s'.log = s.log) :
    Serves s t b b' :=
  ⟨h.pins, log ▸ h.log⟩

/-- Only the log and the pins of the last state matter. -/
theorem Serves.of_end {t' : Core n} (h : Serves s t b b')
    (pending : t'.cpu.nmiPending = t.cpu.nmiPending) (level : t'.cpu.intLevel = t.cpu.intLevel)
    (log : t'.log = t.log) : Serves s t' b b' :=
  ⟨⟨pending.trans h.pins.nmiPending, level.trans h.pins.intLevel⟩, log ▸ h.log⟩

/-- A check services the request on the pins, or leaves it there. -/
theorem m68kiCheckInterrupts_serves {ui : Ui} (h : m68kiCheckInterrupts ui s = some t)
    (pins : Pins s.cpu b) : ∃ b', Serves s t b b' := by
  rw [m68kiCheckInterrupts, if_neg (not_not_intro pins.nmiPending)] at h
  split at h
  next above =>
    obtain rfl : b = true := by
      by_contra hb
      rw [pins.intLevel, if_neg hb] at above
      exact absurd above (UInt32.not_lt.mpr UInt32.zero_le)
    obtain ⟨hpending, ⟨hlog, hlevel⟩ | ⟨hlog, hlevel⟩⟩ := m68kiExceptionInterrupt_spec h
    · exact ⟨true, .of_log_eq ⟨hpending.trans pins.nmiPending, hlevel.trans pins.intLevel⟩ hlog⟩
    · have hone : s.cpu.intLevel >>> 8 = 1 := by rw [pins.intLevel]; rfl
      refine ⟨false, ⟨hpending.trans pins.nmiPending, hlevel⟩, _, hlog, ?_, rfl⟩
      intro e he
      rw [hone] at he
      exact List.mem_singleton.mp he
  next => exact ⟨b, Option.some.inj h ▸ .of_log_eq pins rfl⟩

end Serves

/-! ### Handlers -/

/-- The handler leaves a part of the CPU to the core. -/
def Handler.Keeps {α : Type} (part : Cpu → α) : Handler → Prop
  | .done => True
  | .inspect next => ∀ c, (next c).Keeps part
  | .modify w next => (∀ c, part (w.apply c) = part c) ∧ next.Keeps part
  | .read _ _ next => ∀ value, (next value).Keeps part
  | .write _ _ _ next => next.Keeps part
  | .checkInterrupts next => next.Keeps part

/-- The handlers leave the interrupt pins alone. No handler of the 68000 writes them. -/
def Opcodes.KeepsPins (ops : Opcodes) : Prop := ∀ ir, (ops.handler ir).Keeps Cpu.intLevel

/-- The handlers leave the cycles of a reset alone: only `m68k_pulse_reset` sets them. -/
def Opcodes.KeepsResetCycles (ops : Opcodes) : Prop :=
  ∀ ir, (ops.handler ir).Keeps Cpu.resetCycles

/-- A handler may let the core check for interrupts as often as it likes. -/
theorem Handler.run_serves {ui : Ui} {handler : Handler} (keeps : handler.Keeps Cpu.intLevel)
    {s t : Core n} {b : Bool} (h : handler.run ui s = some t) (pins : Pins s.cpu b) :
    ∃ b', Serves s t b b' := by
  induction handler generalizing s b with
  | done => exact ⟨b, Option.some.inj h ▸ .of_log_eq pins rfl⟩
  | inspect next ih => exact ih s.cpu (keeps s.cpu) h pins
  | modify w next ih =>
    obtain ⟨hlevel, keeps⟩ := keeps
    have pins' : Pins (w.apply s.cpu) b :=
      ⟨(w.nmiPending s.cpu).trans pins.nmiPending, (hlevel s.cpu).trans pins.intLevel⟩
    obtain ⟨b', serves⟩ := ih keeps h pins'
    exact ⟨b', serves.of_start rfl⟩
  | read w address next ih =>
    obtain ⟨⟨value, s'⟩, hread, hrun⟩ := Option.bind_eq_some_iff.mp h
    obtain ⟨machine, rfl⟩ := Core.read_frame hread
    obtain ⟨b', serves⟩ := ih value (keeps value) hrun pins
    exact ⟨b', serves.of_start rfl⟩
  | write w address value next ih =>
    obtain ⟨s', hwrite, hrun⟩ := Option.bind_eq_some_iff.mp h
    obtain ⟨machine, rfl⟩ := Core.write_frame hwrite
    obtain ⟨b', serves⟩ := ih keeps hrun pins
    exact ⟨b', serves.of_start rfl⟩
  | checkInterrupts next ih =>
    obtain ⟨s', hcheck, hrun⟩ := Option.bind_eq_some_iff.mp h
    obtain ⟨b₁, checked⟩ := m68kiCheckInterrupts_serves hcheck pins
    obtain ⟨b', serves⟩ := ih keeps hrun checked.pins
    exact ⟨b', checked.trans serves⟩

/-! ### Steps -/

theorem beginExecute_serves {ui : Ui} {s : Core n} {r : Running n} {cycles : Int} {b : Bool}
    (h : beginExecute ui s cycles = some r) (pins : Pins s.cpu b) :
    ∃ b', Serves s r.core b b' := by
  unfold beginExecute at h
  dsimp only at h
  split at h
  · cases h
    exact ⟨b, .of_log_eq ⟨pins.nmiPending, pins.intLevel⟩ rfl⟩
  · obtain ⟨t, hcheck, h⟩ := Option.bind_eq_some_iff.mp h
    obtain ⟨b', checked⟩ := m68kiCheckInterrupts_serves hcheck ⟨pins.nmiPending, pins.intLevel⟩
    have begun : Serves s t b b' := checked.of_start rfl
    split at h
    · cases h
      exact ⟨b', begun⟩
    · cases h
      exact ⟨b', begun.of_end rfl rfl rfl⟩

theorem executeInstruction_serves {ui : Ui} {ops : Opcodes} (keeps : ops.KeepsPins) {s : Core n}
    {r : Running n} {b : Bool} (h : executeInstruction ui ops s = some r) (pins : Pins s.cpu b) :
    ∃ b', Serves s r.core b b' := by
  obtain ⟨⟨word, s₁⟩, hfetch, hrest⟩ := Option.bind_eq_some_iff.mp h
  obtain ⟨t, hrun, hend⟩ := Option.bind_eq_some_iff.mp hrest
  obtain ⟨machine, rfl⟩ := Core.read_frame hfetch
  have hopcode : Serves s { s with log := s.log ++ [.instruction word.toUInt16] } b b :=
    ⟨pins, _, rfl, fun _ he => absurd he List.not_mem_nil, rfl⟩
  obtain ⟨b', handled⟩ := Handler.run_serves (keeps _) hrun ⟨pins.nmiPending, pins.intLevel⟩
  have executed : Serves s t b b' := hopcode.trans (handled.of_start rfl)
  dsimp only at hend
  split at hend
  · cases hend
    exact ⟨b', executed.of_end rfl rfl rfl⟩
  · cases hend
    exact ⟨b', executed.of_end rfl rfl rfl⟩

/-- What a part of a run does on the pins. -/
structure PinEffect (es : List PinEvent) (t : Running n) (b b' : Bool) : Prop where
  pins : Pins t.core.cpu b'
  level : ∀ k, .service k ∈ es → k = 1
  mail : run Mailbox.step b (es.map PinEvent.mail) = some b'

theorem Serves.pinEffect {s : Core n} {t : Running n} {b b' : Bool} (h : Serves s t.core b b') :
    PinEffect (services (t.core.log.drop s.log.length)) t b b' := by
  obtain ⟨es, hes, level, hrun⟩ := h.log
  have hdrop : t.core.log.drop s.log.length = es := by rw [hes, List.drop_left]
  rw [hdrop]
  exact ⟨h.pins, fun k hk => PinEvent.service.inj (level _ hk), hrun⟩

theorem m68kSetIrq_pins {c : Cpu} {b : Bool} (pins : Pins c b) : Pins (m68kSetIrq c 1) true := by
  rw [m68kSetIrq_timer]
  exact ⟨pins.nmiPending, rfl⟩

theorem Running.step_pins {ui : Ui} {ops : Opcodes} (keeps : ops.KeepsPins) {r r' : Running n}
    {x : RunStep} {b : Bool} (h : r.step ui ops x = some r') (pins : Pins r.core.cpu b) :
    ∃ b', PinEffect (x.pinEvents r r') r' b b' := by
  obtain ⟨core, phase⟩ := r
  cases x with
  | beginExecute =>
    cases phase with
    | call => exact (beginExecute_serves h pins).imp fun _ serves => serves.pinEffect
    | loop | returned | left => cases h
  | instruction =>
    cases phase with
    | loop => exact (executeInstruction_serves keeps h pins).imp fun _ serves => serves.pinEffect
    | call | returned | left => cases h
  | endSlice event readable =>
    cases phase with
    | returned =>
      obtain rfl := Option.some.inj h
      refine ⟨true, m68kSetIrq_pins pins, fun k hk => ?_, rfl⟩
      cases List.mem_singleton.mp hk
    | call | loop | left => cases h

theorem pinEvents_cons {ui : Ui} {ops : Opcodes} {r r' : Running n} {x : RunStep}
    (h : r.step ui ops x = some r') (xs : List RunStep) :
    pinEvents ui ops r (x :: xs) = x.pinEvents r r' ++ pinEvents ui ops r' xs := by
  rw [pinEvents, h]

theorem PinEffect.append {es es' : List PinEvent} {t u : Running n} {b b' b'' : Bool}
    (h : PinEffect es t b b') (h' : PinEffect es' u b' b'') : PinEffect (es ++ es') u b b'' := by
  refine ⟨h'.pins, fun k hk => (List.mem_append.mp hk).elim (h.level k) (h'.level k), ?_⟩
  rw [List.map_append, run_append, h.mail]
  exact h'.mail

theorem Running.run_pins {ui : Ui} {ops : Opcodes} (keeps : ops.KeepsPins) {r r' : Running n}
    {xs : List RunStep} {b : Bool} (h : run (Running.step ui ops) r xs = some r')
    (pins : Pins r.core.cpu b) : ∃ b', PinEffect (pinEvents ui ops r xs) r' b b' := by
  induction xs generalizing r b with
  | nil =>
    obtain rfl := Option.some.inj h
    exact ⟨b, pins, fun _ hk => absurd hk List.not_mem_nil, rfl⟩
  | cons x xs ih =>
    obtain ⟨middle, hstep, rest⟩ := Option.bind_eq_some_iff.mp h
    obtain ⟨b₁, effect⟩ := Running.step_pins keeps hstep pins
    obtain ⟨b', effects⟩ := ih rest effect.pins
    rw [pinEvents_cons hstep]
    exact ⟨b', effect.append effects⟩

/-! ### What becomes of a request -/

/-- Each interrupt of `es` is of level 1 and answers a request that no interrupt has answered
before, and each request is answered, still on the pins of the core, or merged with the next. -/
structure Answered (es : List PinEvent) (c : Cpu) : Prop where
  level : ∀ k, .service k ∈ es → k = 1
  answers : ∀ before k after, es = before ++ .service k :: after →
    Mailbox.Filled (before.map PinEvent.mail)
  pending : c.intLevel ≠ 0 ↔ Mailbox.Filled (es.map PinEvent.mail)
  account : es.count .request = (if c.intLevel ≠ 0 then 1 else 0) + es.count (.service 1)
    + Mailbox.merged false (es.map PinEvent.mail)

theorem count_mail_put (es : List PinEvent) :
    (es.map PinEvent.mail).count .put = es.count .request := by
  induction es with
  | nil => rfl
  | cons e es ih => cases e <;> simp [PinEvent.mail, ih]

theorem count_mail_take {es : List PinEvent} (level : ∀ k, .service k ∈ es → k = 1) :
    (es.map PinEvent.mail).count .take = es.count (.service 1) := by
  induction es with
  | nil => rfl
  | cons e es ih =>
    have later := ih fun k hk => level k (List.mem_cons_of_mem e hk)
    cases e with
    | request => simp [PinEvent.mail, later]
    | service k =>
      obtain rfl := level k List.mem_cons_self
      simp [PinEvent.mail, later]

theorem Pins.intLevel_ne_zero {c : Cpu} {b : Bool} (pins : Pins c b) :
    c.intLevel ≠ 0 ↔ b = true := by
  rw [pins.intLevel]
  cases b <;> decide

theorem PinEffect.answered {es : List PinEvent} {t : Running n} {b : Bool}
    (h : PinEffect es t false b) : Answered es t.core.cpu := by
  obtain ⟨answers, pending⟩ := Mailbox.filled_of_run h.mail
  refine ⟨h.level, fun before k after hes => answers _ (after.map PinEvent.mail) ?_,
    h.pins.intLevel_ne_zero.trans pending, ?_⟩
  · rw [hes, List.map_append, List.map_cons]
    rfl
  · have hpending : (if t.core.cpu.intLevel ≠ 0 then 1 else 0) = b.toNat := by
      cases b with
      | false => exact if_neg fun h' => Bool.false_ne_true (h.pins.intLevel_ne_zero.mp h')
      | true => exact if_pos (h.pins.intLevel_ne_zero.mpr rfl)
    rw [hpending, ← count_mail_put, ← count_mail_take h.level, ← Mailbox.balance h.mail,
      Bool.toNat_false, Nat.zero_add]

/-- A slice that begins with a request above the mask services it, unless the core is halted. -/
theorem m68kiExceptionInterrupt_serviced {ui : Ui} {s t : Core n} {level : UInt32}
    (h : m68kiExceptionInterrupt ui s level = some t)
    (running : t.cpu.stopped = 0 ∨ s.cpu.stopped &&& ~~~1 = 0) : t.cpu.intLevel = 0 := by
  rcases m68kiExceptionInterrupt_cases h with ⟨halted, rfl⟩ | ⟨-, _, _, _, _, _, rfl⟩
  · exact running.elim (absurd · halted) (absurd · halted)
  · rfl

theorem m68kiCheckInterrupts_above {ui : Ui} {s t : Core n} {b : Bool}
    (h : m68kiCheckInterrupts ui s = some t) (pins : Pins s.cpu b)
    (running : t.cpu.stopped = 0 ∨ s.cpu.stopped &&& ~~~1 = 0) :
    t.cpu.intLevel = 0 ∨ t = s ∧ s.cpu.intLevel ≤ s.cpu.intMask := by
  rw [m68kiCheckInterrupts, if_neg (not_not_intro pins.nmiPending)] at h
  split at h
  next => exact .inl (m68kiExceptionInterrupt_serviced h running)
  next notAbove => exact .inr ⟨(Option.some.inj h).symm, UInt32.not_lt.mp notAbove⟩

/-- A slice that reaches its instructions begins with no request above the mask. -/
theorem beginExecute_above {ui : Ui} {s : Core n} {r : Running n} {cycles : Int} {b : Bool}
    (h : beginExecute ui s cycles = some r) (pins : Pins s.cpu b) (loop : r.phase = .loop) :
    r.core.cpu.intLevel ≤ r.core.cpu.intMask := by
  unfold beginExecute at h
  dsimp only at h
  split at h
  · cases h
    cases loop
  · obtain ⟨t, hcheck, h⟩ := Option.bind_eq_some_iff.mp h
    split at h
    next running =>
      cases h
      obtain hzero | ⟨rfl, above⟩ :=
        m68kiCheckInterrupts_above hcheck ⟨pins.nmiPending, pins.intLevel⟩ (.inl running)
      · rw [hzero]
        exact UInt32.zero_le
      · exact above
    next =>
      cases h
      cases loop

/-! ### From the boot on -/

/-- The core at the entry of the main loop, and after the first `m68k_execute` of a warm boot. -/
theorem bootFrom_pins (ui : Ui) (ops : Opcodes) (l : Loaded ramSize)
    (ramFile : Option (List UInt8)) :
    ∃ s₀, bootFrom ui l ramFile = some s₀ ∧ s₀.phase = .call ∧
      s₀.core.cpu.resetCycles = 40 ∧ (¬ CompleteImage ramSize ramFile → Pins s₀.core.cpu false) ∧
      (CompleteImage ramSize ramFile → ∃ s₁, s₀.step ui ops .beginExecute = some s₁ ∧
        RunStep.pinEvents s₀ s₁ .beginExecute = [.service 7] ∧ Pins s₁.core.cpu false) := by
  obtain ⟨s₀, hboot, booted⟩ := bootFrom_booted ui l ramFile
  obtain ⟨core, phase⟩ := s₀
  obtain rfl : phase = .call := booted.phase
  refine ⟨_, hboot, rfl, booted.resetCycles, fun incomplete => ⟨?_, booted.intLevel⟩,
    fun complete => ?_⟩
  · rw [booted.nmiPending, if_neg fun h => incomplete ((loadRam_complete ramFile).mp h)]
  · have hpending : core.cpu.nmiPending = 1 := by
      rw [booted.nmiPending, (loadRam_complete ramFile).mpr complete]
      rfl
    obtain ⟨t, hexecute, hserved, serviced⟩ :=
      beginExecute_nmi soundRamSize_ramSize ui booted.ready booted.resetCycles hpending
    refine ⟨_, hexecute, ?_, hserved, serviced.intLevel⟩
    rw [RunStep.pinEvents, serviced.log, List.drop_left]
    rfl

/-- What a run from the boot on does on the pins: the one interrupt of a warm boot, and what the
timer's requests come to. -/
theorem run_boot_pins {ui : Ui} {ops : Opcodes} (keeps : ops.KeepsPins) {s₀ r : Running ramSize}
    {ramFile : Option (List UInt8)} (phase : s₀.phase = .call)
    (cold : ¬ CompleteImage ramSize ramFile → Pins s₀.core.cpu false)
    (warm : CompleteImage ramSize ramFile → ∃ s₁, s₀.step ui ops .beginExecute = some s₁ ∧
      RunStep.pinEvents s₀ s₁ .beginExecute = [.service 7] ∧ Pins s₁.core.cpu false)
    {x : RunStep} {xs : List RunStep} (h : run (Running.step ui ops) s₀ (x :: xs) = some r) :
    ∃ first es b, pinEvents ui ops s₀ (x :: xs) = first ++ es ∧ PinEffect es r false b ∧
      (first = [.service 7] ∧ CompleteImage ramSize ramFile ∨
        first = [] ∧ ¬ CompleteImage ramSize ramFile) := by
  obtain ⟨core, ph⟩ := s₀
  obtain rfl : ph = .call := phase
  by_cases complete : CompleteImage ramSize ramFile
  · obtain ⟨s₁, hfirst, hevents, pins⟩ := warm complete
    obtain ⟨s₁', hstep, hrest⟩ := Option.bind_eq_some_iff.mp h
    -- no other step is in phase here
    cases x with
    | beginExecute =>
      obtain rfl := Option.some.inj (hfirst.symm.trans hstep)
      obtain ⟨b, effect⟩ := Running.run_pins keeps hrest pins
      rw [pinEvents_cons hfirst, hevents]
      exact ⟨_, _, b, rfl, effect, .inl ⟨rfl, complete⟩⟩
    | instruction => cases hstep
    | endSlice event readable => cases hstep
  · obtain ⟨b, effect⟩ := Running.run_pins keeps h (cold complete)
    exact ⟨[], _, b, rfl, effect, .inr ⟨rfl, complete⟩⟩

/-- **The timer interrupts.** In every run of the emulator the interrupts of the core are the one
of a warm boot, at the start, and interrupts of level 1. Each of these answers a request of the
timer that no other interrupt answers, and each request is answered, still on the pins, or merged
with the next one. When a slice reaches its instructions, no request above the mask is left. -/
theorem timer_interrupts (ui : Ui) (ops : Opcodes) (keeps : ops.KeepsPins) (l : Loaded ramSize)
    (ramFile : Option (List UInt8)) :
    ∃ s₀, bootFrom ui l ramFile = some s₀ ∧
      ∀ x xs r, run (Running.step ui ops) s₀ (x :: xs) = some r →
        (∃ first es, pinEvents ui ops s₀ (x :: xs) = first ++ es ∧ Answered es r.core.cpu ∧
          (first = [.service 7] ∧ CompleteImage ramSize ramFile ∨
            first = [] ∧ ¬ CompleteImage ramSize ramFile)) ∧
        ∀ r', r.step ui ops .beginExecute = some r' → r'.phase = .loop →
          r'.core.cpu.intLevel ≤ r'.core.cpu.intMask := by
  obtain ⟨s₀, hboot, phase, -, cold, warm⟩ := bootFrom_pins ui ops l ramFile
  refine ⟨s₀, hboot, fun x xs r h => ?_⟩
  obtain ⟨first, es, b, hevents, effect, hfirst⟩ := run_boot_pins keeps phase cold warm h
  refine ⟨⟨first, es, hevents, effect.answered, hfirst⟩, fun r' hstep loop => ?_⟩
  obtain ⟨core, ph⟩ := r
  cases ph with
  | call => exact beginExecute_above hstep effect.pins loop
  | loop | returned | left => cases hstep

/-! ### The cycles of a reset -/

/-- A slice has cycles left after those of a reset. -/
def ResetFits (c : Cpu) : Prop := (c.resetCycles.toNat : Int) < cpuCycles

theorem m68kiExceptionInterrupt_resetCycles {ui : Ui} {s t : Core n} {level : UInt32}
    (h : m68kiExceptionInterrupt ui s level = some t) :
    t.cpu.resetCycles = s.cpu.resetCycles := by
  rcases m68kiExceptionInterrupt_cases h with ⟨-, rfl⟩ | ⟨-, _, _, _, _, _, rfl⟩
  · rfl
  · rfl

theorem m68kiCheckInterrupts_resetCycles {ui : Ui} {s t : Core n}
    (h : m68kiCheckInterrupts ui s = some t) : t.cpu.resetCycles = s.cpu.resetCycles := by
  rw [m68kiCheckInterrupts] at h
  split at h
  · have serviced := m68kiExceptionInterrupt_resetCycles h
    exact serviced
  · split at h
    · exact m68kiExceptionInterrupt_resetCycles h
    · cases h
      rfl

/-- The checks for interrupts in a handler do not touch them either. -/
theorem Handler.run_resetCycles {ui : Ui} {handler : Handler}
    (keeps : handler.Keeps Cpu.resetCycles) {s t : Core n} (h : handler.run ui s = some t) :
    t.cpu.resetCycles = s.cpu.resetCycles := by
  induction handler generalizing s with
  | done =>
    cases h
    rfl
  | inspect next ih => exact ih s.cpu (keeps s.cpu) h
  | modify w next ih =>
    obtain ⟨here, keeps⟩ := keeps
    exact (ih keeps h).trans (here s.cpu)
  | read w address next ih =>
    obtain ⟨⟨value, s'⟩, hread, hrun⟩ := Option.bind_eq_some_iff.mp h
    obtain ⟨machine, rfl⟩ := Core.read_frame hread
    have kept := ih value (keeps value) hrun
    exact kept
  | write w address value next ih =>
    obtain ⟨s', hwrite, hrun⟩ := Option.bind_eq_some_iff.mp h
    obtain ⟨machine, rfl⟩ := Core.write_frame hwrite
    have kept := ih keeps hrun
    exact kept
  | checkInterrupts next ih =>
    obtain ⟨s', hcheck, hrun⟩ := Option.bind_eq_some_iff.mp h
    exact (ih keeps hrun).trans (m68kiCheckInterrupts_resetCycles hcheck)

/-- `m68k_execute` takes the cycles of a reset off its first slice. -/
theorem beginExecute_resetCycles {ui : Ui} {s : Core n} {r : Running n} {cycles : Int}
    (h : beginExecute ui s cycles = some r) : r.core.cpu.resetCycles = 0 := by
  unfold beginExecute at h
  dsimp only at h
  split at h
  · cases h
    rfl
  · obtain ⟨t, hcheck, h⟩ := Option.bind_eq_some_iff.mp h
    have hzero := m68kiCheckInterrupts_resetCycles hcheck
    split at h
    · cases h
      exact hzero
    · cases h
      exact hzero

theorem executeInstruction_resetCycles {ui : Ui} {ops : Opcodes} (keeps : ops.KeepsResetCycles)
    {s : Core n} {r : Running n} (h : executeInstruction ui ops s = some r) :
    r.core.cpu.resetCycles = s.cpu.resetCycles := by
  obtain ⟨⟨word, s₁⟩, hfetch, hrest⟩ := Option.bind_eq_some_iff.mp h
  obtain ⟨t, hrun, hend⟩ := Option.bind_eq_some_iff.mp hrest
  obtain ⟨machine, rfl⟩ := Core.read_frame hfetch
  have handled := Handler.run_resetCycles (keeps _) hrun
  dsimp only at hend
  split at hend
  · cases hend
    exact handled
  · cases hend
    exact handled

/-- So in every slice the core has cycles to check for interrupts. -/
theorem Running.step_resetFits {ui : Ui} {ops : Opcodes} (keeps : ops.KeepsResetCycles)
    {r r' : Running n} {x : RunStep} (h : r.step ui ops x = some r')
    (fits : ResetFits r.core.cpu) : ResetFits r'.core.cpu := by
  obtain ⟨core, phase⟩ := r
  cases x with
  | beginExecute =>
    cases phase with
    | call =>
      rw [ResetFits, beginExecute_resetCycles h]
      decide
    | loop | returned | left => cases h
  | instruction =>
    cases phase with
    | loop =>
      rw [ResetFits, executeInstruction_resetCycles keeps h]
      exact fits
    | call | returned | left => cases h
  | endSlice event readable =>
    cases phase with
    | returned =>
      cases h
      rw [ResetFits, m68kSetIrq_timer]
      exact fits
    | call | loop | left => cases h

/-! ### No request merged -/

/-- The step is not the start of a slice with a request that the mask or a halt keeps on the
pins. -/
def StartsOpen (r : Running n) : RunStep → Prop
  | .beginExecute => r.core.cpu.intLevel ≠ 0 → r.core.cpu.intMask < 0x0100 ∧
      r.core.cpu.stopped &&& ~~~1 = 0
  | .instruction | .endSlice _ _ => True

/-- Where no request can be on the pins. -/
def Phase.InSlice (p : Phase) : Prop := p = .loop ∨ p = .returned

theorem beginExecute_open {ui : Ui} {s : Core n} {r : Running n}
    (h : beginExecute ui s cpuCycles = some r) (pins : Pins s.cpu true)
    (unmasked : s.cpu.intMask < 0x0100) (running : s.cpu.stopped &&& ~~~1 = 0)
    (fits : ResetFits s.cpu) : r.core.cpu.intLevel = 0 := by
  unfold beginExecute at h
  dsimp only at h
  split at h
  next early =>
    rw [ResetFits] at fits
    exact absurd early.2 (by omega)
  next =>
    obtain ⟨t, hcheck, h⟩ := Option.bind_eq_some_iff.mp h
    have hzero : t.cpu.intLevel = 0 := by
      obtain hzero | ⟨-, masked⟩ :=
        m68kiCheckInterrupts_above hcheck ⟨pins.nmiPending, pins.intLevel⟩ (.inr running)
      · exact hzero
      · have hlevel : s.cpu.intLevel = 0x0100 := pins.intLevel
        dsimp only at masked
        rw [hlevel] at masked
        exact absurd unmasked (UInt32.not_lt.mpr masked)
    split at h
    · cases h
      exact hzero
    · cases h
      exact hzero

theorem mail_services (log : List CoreEvent) :
    ∀ e ∈ (services log).map PinEvent.mail, e = .take := by
  intro e he
  obtain ⟨x, hx, rfl⟩ := List.mem_map.mp he
  obtain ⟨k, -, rfl⟩ := List.mem_map.mp hx
  rfl

theorem Running.step_open {ui : Ui} {ops : Opcodes} (keeps : ops.KeepsPins) {r r' : Running n}
    {x : RunStep} {b : Bool} (h : r.step ui ops x = some r') (pins : Pins r.core.cpu b)
    (empty : r.phase.InSlice → b = false) (fits : ResetFits r.core.cpu) (starts : StartsOpen r x) :
    ∃ b', PinEffect (x.pinEvents r r') r' b b' ∧
      Mailbox.merged b ((x.pinEvents r r').map PinEvent.mail) = 0 ∧
      (r'.phase.InSlice → b' = false) := by
  obtain ⟨b', effect⟩ := Running.step_pins keeps h pins
  obtain ⟨core, phase⟩ := r
  refine ⟨b', effect, ?_⟩
  cases x with
  | beginExecute =>
    cases phase with
    | call =>
      refine ⟨Mailbox.merged_of_takes (mail_services _), fun _ => ?_⟩
      cases b with
      | false => exact Mailbox.empty_of_takes (mail_services _) effect.mail
      | true =>
        obtain ⟨unmasked, running⟩ := starts (pins.intLevel_ne_zero.mpr rfl)
        have hzero := beginExecute_open h pins unmasked running fits
        exact Bool.eq_false_iff.mpr fun hb => effect.pins.intLevel_ne_zero.mpr hb hzero
    | loop | returned | left => cases h
  | instruction =>
    cases phase with
    | loop =>
      obtain rfl := empty (.inl rfl)
      exact ⟨Mailbox.merged_of_takes (mail_services _),
        fun _ => Mailbox.empty_of_takes (mail_services _) effect.mail⟩
    | call | returned | left => cases h
  | endSlice event readable =>
    cases phase with
    | returned =>
      obtain rfl := empty (.inr rfl)
      refine ⟨rfl, fun inside => ?_⟩
      obtain rfl := Option.some.inj h
      dsimp only at inside
      split at inside
      · rcases inside with h | h <;> cases h
      · rcases inside with h | h <;> cases h
    | call | loop | left => cases h

theorem Running.run_open {ui : Ui} {ops : Opcodes} (keeps : ops.KeepsPins)
    (reset : ops.KeepsResetCycles) {r r' : Running n}
    {xs : List RunStep} {b : Bool} (h : run (Running.step ui ops) r xs = some r')
    (pins : Pins r.core.cpu b) (empty : r.phase.InSlice → b = false) (fits : ResetFits r.core.cpu)
    (starts : Meets (Running.step ui ops) StartsOpen r xs) :
    Mailbox.merged b ((pinEvents ui ops r xs).map PinEvent.mail) = 0 := by
  induction xs generalizing r b with
  | nil => rfl
  | cons x xs ih =>
    obtain ⟨middle, hstep, rest⟩ := Option.bind_eq_some_iff.mp h
    obtain ⟨here, later⟩ := starts middle hstep
    obtain ⟨b₁, effect, hmerged, empty₁⟩ := Running.step_open keeps hstep pins empty fits here
    have fits₁ := Running.step_resetFits reset hstep fits
    rw [pinEvents_cons hstep, List.map_append, Mailbox.merged_append effect.mail, hmerged,
      ih rest effect.pins empty₁ fits₁ later]

/-- **No timer interrupt is lost.** Let the handlers leave the pins and the cycles of a reset to the
core. In a run after a cold boot in which the guest has the timer unmasked whenever a slice begins
with a request, every request of the timer but the last, which may still be on the pins, has been
answered by an interrupt of its own. -/
theorem timer_interrupts_once (ui : Ui) (ops : Opcodes) (keeps : ops.KeepsPins)
    (reset : ops.KeepsResetCycles) (l : Loaded ramSize)
    (ramFile : Option (List UInt8)) (cold : ¬ CompleteImage ramSize ramFile) :
    ∃ s₀, bootFrom ui l ramFile = some s₀ ∧
      ∀ xs r, Meets (Running.step ui ops) StartsOpen s₀ xs →
        run (Running.step ui ops) s₀ xs = some r →
        (pinEvents ui ops s₀ xs).count .request
          = (pinEvents ui ops s₀ xs).count (.service 1)
            + (if r.core.cpu.intLevel ≠ 0 then 1 else 0) := by
  obtain ⟨s₀, hboot, phase, cycles, pins, -⟩ := bootFrom_pins ui ops l ramFile
  refine ⟨s₀, hboot, fun xs r starts h => ?_⟩
  have fits : ResetFits s₀.core.cpu := by
    rw [ResetFits, cycles]
    decide
  obtain ⟨b, effect⟩ := Running.run_pins keeps h (pins cold)
  have hmerged := Running.run_open keeps reset h (pins cold) (fun _ => rfl) fits starts
  rw [effect.answered.account, hmerged, Nat.add_zero, Nat.add_comm]

/-! ### A guest that unmasks -/

/-- A handler that lowers the mask to zero and ends the slice. -/
def CpuWrite.unmask : CpuWrite where
  apply c := { c with intMask := 0, remainingCycles := 0 }
  nmiPending _ := rfl
  intLevel _ h := h

def Opcodes.unmasking : Opcodes := ⟨fun _ => .modify .unmask .done, fun _ => 4⟩

theorem Opcodes.unmasking_keepsPins : Opcodes.unmasking.KeepsPins :=
  fun _ => ⟨fun _ => rfl, trivial⟩

theorem Opcodes.unmasking_keepsResetCycles : Opcodes.unmasking.KeepsResetCycles :=
  fun _ => ⟨fun _ => rfl, trivial⟩

/-- Two slices: the first unmasks, and the second begins with the request of the timer. -/
def unmaskingRun : List RunStep :=
  [.beginExecute, .instruction, .endSlice ⟨none, false⟩ false, .beginExecute]

/-- An opcode in the ROM is fetched and lowers the mask. -/
theorem executeInstruction_unmasking (ui : Ui) {s : Core n} (ready : TakesExceptions s.cpu)
    (pc : s.cpu.pc.toNat < 262143) :
    ∃ t, executeInstruction ui .unmasking s = some ⟨t, .returned⟩ ∧ TakesExceptions t.cpu ∧
      t.cpu.resetCycles = s.cpu.resetCycles ∧ t.cpu.nmiPending = s.cpu.nmiPending ∧
      t.cpu.intMask = 0 ∧ t.machine = s.machine ∧ ∃ ir, t.log = s.log ++ [.instruction ir] := by
  obtain ⟨word, hword⟩ := m68kReadMemory16_rom s.machine pc
  have haddress : (s.cpu.pc + 2 - 2) &&& s.cpu.addressMask = s.cpu.pc := by
    rw [UInt32.add_sub_cancel, ready.addressMask, ← UInt32.toNat_inj, UInt32.toNat_and,
      show (0x00ffffff : UInt32).toNat = 2 ^ 24 - 1 from rfl, BitField.and_ones]
    omega
  refine ⟨_, Option.bind_eq_some_iff.mpr ⟨_, Option.bind_eq_some_iff.mpr
    ⟨_, (congrArg (m68kReadMemory16 s.machine) haddress).trans hword, rfl⟩, rfl⟩, ?_⟩
  exact ⟨⟨ready.cpuType, ready.sFlag, ready.stopped, ready.vbr, ready.addressMask⟩, rfl, rfl, rfl,
    rfl, _, rfl⟩

/-- The slice that follows begins with the service of the request. -/
theorem beginExecute_request (size : SoundRamSize n) (ui : Ui) {s : Core n}
    (ready : TakesExceptions s.cpu) (cycles : s.cpu.resetCycles = 0)
    (pending : s.cpu.nmiPending = 0) (level : s.cpu.intLevel = 0x0100)
    (unmasked : s.cpu.intMask = 0) :
    ∃ t, beginExecute ui s cpuCycles = some ⟨t, .loop⟩ ∧ Serviced ui 1 s t := by
  obtain ⟨t, ht, hstopped, -, serviced⟩ := m68kiExceptionInterrupt_total size ui
    (s := { s with cpu := { s.cpu with
      resetCycles := 0
      remainingCycles := 32768
      initialCycles := 32768 } })
    ⟨ready.cpuType, ready.sFlag, ready.stopped, ready.vbr, ready.addressMask⟩
    (show (1 : UInt32).toNat < 8 by decide)
  have hcheck : m68kiCheckInterrupts ui { s with cpu := { s.cpu with
      resetCycles := 0
      remainingCycles := 32768
      initialCycles := 32768 } } = some t := by
    rw [m68kiCheckInterrupts, if_neg (not_not_intro pending),
      if_pos (by rw [level, unmasked]; decide), level]
    exact ht
  exact ⟨t, beginExecute_of_check cycles rfl (by decide) hcheck hstopped, serviced.pc,
    serviced.sFlag, serviced.intMask, serviced.intLevel, serviced.stackPointer, serviced.frame,
    serviced.log⟩

/-- From a cold boot with the first instruction in the ROM the two slices can be run: the timer's
request is serviced. -/
theorem unmasking_run (ui : Ui) (l : Loaded ramSize)
    (start : (romLong l.mainRom 4).toNat < 262143) :
    ∃ s₀ r, bootFrom ui l none = some s₀ ∧
      run (Running.step ui .unmasking) s₀ unmaskingRun = some r ∧
      Meets (Running.step ui .unmasking) StartsOpen s₀ unmaskingRun ∧
      pinEvents ui .unmasking s₀ unmaskingRun = [.request, .service 1] ∧
      r.core.cpu.intLevel = 0 := by
  obtain ⟨⟨s, phase⟩, hboot, booted⟩ := bootFrom_booted ui l none
  obtain rfl : phase = .call := booted.phase
  have ready := booted.ready
  have hpending : s.cpu.nmiPending = 0 := booted.nmiPending
  have hpc : s.cpu.pc.toNat < 262143 := booted.programCounter ▸ start
  have hbegin : Running.step ui .unmasking ⟨s, .call⟩ .beginExecute = some _ :=
    beginExecute_of_check (c := 32728) booted.resetCycles rfl (by decide)
      (m68kiCheckInterrupts_idle ui hpending booted.intLevel) ready.stopped
  obtain ⟨t, hinstruction, ready', hcycles, hpending', unmasked, hmachine, ir, hlog⟩ :=
    executeInstruction_unmasking ui (s := { s with cpu := { s.cpu with
      resetCycles := 0
      remainingCycles := 32728
      initialCycles := 32728 } })
      ⟨ready.cpuType, ready.sFlag, ready.stopped, ready.vbr, ready.addressMask⟩ hpc
  have hexecute : Running.step ui .unmasking ⟨_, .loop⟩ .instruction = some ⟨t, .returned⟩ :=
    hinstruction
  have hwatchdog : t.machine.watchdog = 0 := by
    rw [hmachine, booted.machine]
    rfl
  have hstay : (!watchdogTriggered (tick t.machine) && !false) = true := by
    simp [watchdogTriggered, tick, hwatchdog]
  have hend : Running.step ui .unmasking ⟨t, .returned⟩ (.endSlice ⟨none, false⟩ false) = some _ :=
    Running.step_endSlice hstay
  obtain ⟨u, hserve, serviced⟩ := beginExecute_request soundRamSize_ramSize ui (s := { t with
    cpu := { t.cpu with intLevel := 0x0100 }
    machine := (sliceEnd t.machine ⟨none, false⟩ false).2 })
    ⟨ready'.cpuType, ready'.sFlag, ready'.stopped, ready'.vbr, ready'.addressMask⟩ hcycles
    (hpending'.trans hpending) rfl unmasked
  have hnext : Running.step ui .unmasking ⟨_, .call⟩ .beginExecute = some ⟨u, .loop⟩ := hserve
  refine ⟨_, ⟨u, .loop⟩, hboot, ?_, ?_, ?_, serviced.intLevel⟩
  · rw [unmaskingRun, run_cons, hbegin, Option.bind_some, run_cons, hexecute, Option.bind_some,
      run_cons, hend, Option.bind_some, run_cons, hnext]
    rfl
  · refine .cons hbegin ?_ (.cons hexecute trivial (.cons hend trivial (.cons hnext ?_ trivial)))
    · exact fun request => absurd booted.intLevel request
    · intro _
      refine ⟨?_, ?_⟩
      · rw [unmasked]
        decide
      · rw [ready'.stopped]
        decide
  · rw [unmaskingRun, pinEvents_cons hbegin, pinEvents_cons hexecute, pinEvents_cons hend,
      pinEvents_cons hnext]
    simp [RunStep.pinEvents, pinEvents, hlog, serviced.log, services, CoreEvent.level]

/-- There the request and its interrupt are an answered pair. -/
theorem timer_interrupts_unmasking :
    ∃ s₀ r, bootFrom .xlib (Loaded.zero ramSize) none = some s₀ ∧
      run (Running.step .xlib .unmasking) s₀ unmaskingRun = some r ∧
      pinEvents .xlib .unmasking s₀ unmaskingRun = [.request, .service 1] ∧
      Answered [.request, .service 1] r.core.cpu := by
  obtain ⟨s₀, r, hboot, hrun, -, hevents, -⟩ :=
    unmasking_run .xlib (Loaded.zero ramSize) (by decide)
  obtain ⟨s₀', hboot', all⟩ := timer_interrupts .xlib .unmasking Opcodes.unmasking_keepsPins
    (Loaded.zero ramSize) none
  obtain rfl := Option.some.inj (hboot.symm.trans hboot')
  obtain ⟨⟨first, es, heq, answered, hfirst⟩, -⟩ := all _ _ r hrun
  refine ⟨s₀, r, hboot, hrun, hevents, ?_⟩
  rcases hfirst with ⟨-, bytes, himage, -⟩ | ⟨rfl, -⟩
  · cases himage
  · rw [← hevents]
    exact heq ▸ answered

theorem timer_interrupts_once_unmasking :
    ∃ s₀ r, bootFrom .xlib (Loaded.zero ramSize) none = some s₀ ∧
      run (Running.step .xlib .unmasking) s₀ unmaskingRun = some r ∧
      (pinEvents .xlib .unmasking s₀ unmaskingRun).count .request = 1 ∧
      (pinEvents .xlib .unmasking s₀ unmaskingRun).count (.service 1) = 1 := by
  obtain ⟨s₀, r, hboot, hrun, starts, hevents, hlevel⟩ :=
    unmasking_run .xlib (Loaded.zero ramSize) (by decide)
  obtain ⟨s₀', hboot', all⟩ := timer_interrupts_once .xlib .unmasking Opcodes.unmasking_keepsPins
    Opcodes.unmasking_keepsResetCycles (Loaded.zero ramSize) none (by rintro ⟨_, h, _⟩; cases h)
  obtain rfl := Option.some.inj (hboot.symm.trans hboot')
  have hone : (pinEvents .xlib .unmasking s₀ unmaskingRun).count .request = 1 := by
    rw [hevents]
    decide
  have haccount := all _ r starts hrun
  rw [hone, if_neg (not_not_intro hlevel), Nat.add_zero] at haccount
  exact ⟨s₀, r, hboot, hrun, hone, haccount.symm⟩

end Kyacopycat
