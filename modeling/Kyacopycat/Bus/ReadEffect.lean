import Kyacopycat.Bus.Effect

/-!
What a bus read does to the machine, as a total function.

Three registers of the DUART are cleared by reading them. `readEffect` is the machine after
a byte read and `readEffects` after several.

* `m68kReadMemory8_effect`: a byte read that is defined has this effect.
* `m68kReadMemory_lanes`: a wide read is the byte reads of its lanes, put together in
  big-endian order.
* `readEffects_eq`: what the lanes of a read leave in the three registers.
-/

namespace Kyacopycat

variable {n : Nat}

/-! ### One byte -/

/-- The machine after a byte read at `a`. -/
def readEffect (s : Machine n) (a : UInt32) : Machine n :=
  { s with
    duartSra := if a = 0x810003 then s.duartSra &&& 0x04 else s.duartSra
    duartIpcr := if a = 0x810009 then 0 else s.duartIpcr
    duartIsr := if a = 0x81000b then s.duartIsr &&& 0x3B else s.duartIsr }

theorem readEffect_of_ne (s : Machine n) {a : UInt32} (h3 : a ≠ 0x810003) (h9 : a ≠ 0x810009)
    (hb : a ≠ 0x81000b) : readEffect s a = s := by
  rw [readEffect, if_neg h3, if_neg h9, if_neg hb]

theorem readRegister_effect (s : Machine n) (a : UInt32) :
    (readRegister s a).2 = readEffect s a := by
  unfold readRegister
  by_cases h3 : a = 0x810003
  · subst h3
    rfl
  by_cases h9 : a = 0x810009
  · subst h9
    rfl
  by_cases hb : a = 0x81000b
  · subst hb
    rfl
  rw [readEffect_of_ne s h3 h9 hb, if_neg h3, if_neg h9, if_neg hb]
  repeat' split
  all_goals rfl

/-- A byte read below the register area changes nothing. -/
theorem readEffect_of_lt (s : Machine n) {a : UInt32} (h : a.toNat / 0x400000 % 4 ≠ 2) :
    readEffect s a = s := by
  have hne : ∀ c : UInt32, c.toNat / 0x400000 % 4 = 2 → a ≠ c := by
    rintro c hc rfl
    exact h hc
  exact readEffect_of_ne s (hne _ (by decide)) (hne _ (by decide)) (hne _ (by decide))

/-- A byte read that is defined loads a byte, or a zero, below the registers and changes
nothing, or it reads a register. -/
theorem m68kReadMemory8_cases {s t : Machine n} {a v : UInt32}
    (h : m68kReadMemory8 s a = some (v, t)) :
    (t = s ∧ (n ≤ 0x400000 → a.toNat / 0x400000 % 4 ≠ 2) ∧ ∃ b : UInt8, v = b.toUInt32) ∨
      readRegister s a = (v, t) := by
  have hload : ∀ {m : Nat} {mem : CArray UInt8 m} {i : Nat},
      ((mem.load i).map fun b => (b.toUInt32, s)) = some (v, t) →
        t = s ∧ ∃ b : UInt8, v = b.toUInt32 := by
    intro m mem i hi
    obtain ⟨b, -, heq⟩ := Option.map_eq_some_iff.mp hi
    cases heq
    exact ⟨rfl, b, rfl⟩
  have hzero : some ((0 : UInt32), s) = some (v, t) → t = s ∧ ∃ b : UInt8, v = b.toUInt32 := by
    intro heq
    cases heq
    exact ⟨rfl, 0, rfl⟩
  unfold m68kReadMemory8 at h
  split at h
  next hc =>
    rw [romTest_iff] at hc
    exact .inl ⟨(hload h).1, fun _ => by omega, (hload h).2⟩
  split at h
  next hc =>
    rw [svramTest_iff] at hc
    exact .inl ⟨(hload h).1, fun _ => by omega, (hload h).2⟩
  split at h
  next hc =>
    rw [svromTest_iff] at hc
    exact .inl ⟨(hload h).1, fun _ => by omega, (hload h).2⟩
  split at h
  next hc =>
    rw [lowArea_iff] at hc
    exact .inl ⟨(hzero h).1, fun _ => by omega, (hzero h).2⟩
  split at h
  next hc => exact .inl ⟨(hload h).1, fun _ => by omega, (hload h).2⟩
  split at h
  next hc =>
    rw [ramArea_iff] at hc
    exact .inl ⟨(hzero h).1, fun _ => by omega, (hzero h).2⟩
  · exact .inr (Option.some.inj h)

/-- A byte read that is defined has its effect. -/
theorem m68kReadMemory8_effect (hn : n ≤ 0x400000) {s t : Machine n} {a v : UInt32}
    (h : m68kReadMemory8 s a = some (v, t)) : t = readEffect s a := by
  rcases m68kReadMemory8_cases h with ⟨rfl, hlow, -⟩ | hregister
  · exact (readEffect_of_lt t (hlow hn)).symm
  · rw [← readRegister_effect, hregister]

/-- A byte read in the register area is always defined. -/
theorem m68kReadMemory8_register (hn : n ≤ 0x400000) (s : Machine n) {a : UInt32}
    (h : a.toNat / 0x400000 % 4 = 2) : m68kReadMemory8 s a = some (readRegister s a) := by
  rw [m68kReadMemory8, if_neg (by rw [romTest_iff]; omega), if_neg (by rw [svramTest_iff]; omega),
    if_neg (by rw [svromTest_iff]; omega), if_neg (by rw [lowArea_iff]; omega),
    if_neg (by omega), if_neg (by rw [ramArea_iff]; omega)]

/-- The status register reads as `duart_sra`. -/
theorem m68kReadMemory8_sra (hn : n ≤ 0x400000) (s : Machine n) :
    m68kReadMemory8 s 0x810003 = some (s.duartSra.toUInt32, readEffect s 0x810003) := by
  rw [m68kReadMemory8_register hn s (by decide)]
  rfl

/-- The data register reads as `duart_rba`. -/
theorem m68kReadMemory8_rba (hn : n ≤ 0x400000) (s : Machine n) :
    m68kReadMemory8 s 0x810007 = some (s.duartRba.toUInt32, s) := by
  rw [m68kReadMemory8_register hn s (by decide)]
  rfl

/-! ### Lanes of a wide read -/

/-- The addresses of the lanes of an access. -/
def laneAddresses (w : Width) (address : UInt32) : List UInt32 :=
  (List.range w.lanes).map fun k => address + UInt32.ofNat k

theorem laneAddresses_byte (a : UInt32) : laneAddresses .byte a = [a] := by
  simp [laneAddresses, Width.lanes]

theorem laneAddresses_word (a : UInt32) : laneAddresses .word a = [a, a + 1] := by
  simp [laneAddresses, Width.lanes, List.range_succ]

theorem laneAddresses_long (a : UInt32) :
    laneAddresses .long a = [a, a + 1, a + 2, a + 3] := by
  simp [laneAddresses, Width.lanes, List.range_succ]

/-- The machine after byte reads, the last of the list first. -/
def readEffects (s : Machine n) (as : List UInt32) : Machine n :=
  as.foldr (fun a s => readEffect s a) s

/-- What byte reads leave in the registers that reading clears. -/
theorem readEffects_eq (s : Machine n) (as : List UInt32) :
    readEffects s as = { s with
      duartSra := if 0x810003 ∈ as then s.duartSra &&& 0x04 else s.duartSra
      duartIpcr := if 0x810009 ∈ as then 0 else s.duartIpcr
      duartIsr := if 0x81000b ∈ as then s.duartIsr &&& 0x3B else s.duartIsr } := by
  induction as with
  | nil => simp [readEffects]
  | cons a as ih =>
    rw [readEffects, List.foldr_cons, ← readEffects, ih, readEffect]
    by_cases h3 : a = 0x810003
    · subst h3
      simp only [List.mem_cons, true_or, if_true]
      by_cases hm : (0x810003 : UInt32) ∈ as <;> simp [hm, UInt8.and_assoc]
    by_cases h9 : a = 0x810009
    · subst h9
      simp
    by_cases hb : a = 0x81000b
    · subst hb
      by_cases hm : (0x81000b : UInt32) ∈ as <;> simp [hm, UInt8.and_assoc]
    simp [h3, h9, hb, eq_comm]

theorem readRegister_lt (s : Machine n) (a : UInt32) : (readRegister s a).1.toNat < 256 := by
  unfold readRegister
  repeat' split
  all_goals first | exact UInt8.toNat_lt _ | simp

/-- A byte read returns a byte. -/
theorem m68kReadMemory8_lt {s t : Machine n} {a v : UInt32}
    (h : m68kReadMemory8 s a = some (v, t)) : v.toNat < 256 := by
  rcases m68kReadMemory8_cases h with ⟨-, -, b, rfl⟩ | hregister
  · exact UInt8.toNat_lt b
  · have hlt := readRegister_lt s a
    rwa [hregister] at hlt

theorem toNat_laneByte (w : Width) (v : UInt32) (k : Nat) :
    (laneByte w v k).toNat = v.toNat / 2 ^ (8 * (w.lanes - 1 - k)) % 256 := by
  have := w.lanes_le
  exact BitField.toNat_shiftRight_toUInt8 v (by omega)

/-- A word read puts its bytes together in big-endian order. -/
theorem toNat_word {b0 b1 : UInt32} (h0 : b0.toNat < 256) (h1 : b1.toNat < 256) :
    (b1 ||| (b0 <<< 8)).toNat = b0.toNat * 2 ^ 8 + b1.toNat :=
  BitField.toNat_or_shiftLeft (k := 8) (by decide) h1 (by omega)

/-- A long read puts its bytes together in big-endian order. -/
theorem toNat_long {b0 b1 b2 b3 : UInt32} (h0 : b0.toNat < 256) (h1 : b1.toNat < 256)
    (h2 : b2.toNat < 256) (h3 : b3.toNat < 256) :
    (b3 ||| (b2 <<< 8) ||| (b1 <<< 16) ||| (b0 <<< 24)).toNat
      = b0.toNat * 2 ^ 24 + (b1.toNat * 2 ^ 16 + (b2.toNat * 2 ^ 8 + b3.toNat)) := by
  have e1 := toNat_word h2 h3
  have e2 : (b3 ||| (b2 <<< 8) ||| (b1 <<< 16)).toNat
      = b1.toNat * 2 ^ 16 + (b3 ||| (b2 <<< 8)).toNat :=
    BitField.toNat_or_shiftLeft (k := 16) (by decide) (by omega) (by omega)
  rw [← e1, ← e2]
  exact BitField.toNat_or_shiftLeft (k := 24) (by decide) (by omega) (by omega)

/-- A read that is defined: its lanes are in big-endian order, each what a byte read of its
address returns after the later lanes have been read, and their effects are its effect. -/
theorem m68kReadMemory_lanes (hn : n ≤ 0x400000) {w : Width} {s t : Machine n} {a v : UInt32}
    (h : m68kReadMemory w s a = some (v, t)) :
    t = readEffects s (laneAddresses w a) ∧ v.toNat < 256 ^ w.lanes ∧
      ∀ k < w.lanes, ∃ u, m68kReadMemory8 (readEffects s ((laneAddresses w a).drop (k + 1)))
        (a + UInt32.ofNat k) = some ((laneByte w v k).toUInt32, u) := by
  have hbyte : ∀ {b : UInt32} {k : Nat}, b.toNat = v.toNat / 2 ^ (8 * (w.lanes - 1 - k)) % 256 →
      b = (laneByte w v k).toUInt32 := fun h => by
    rw [← UInt32.toNat_inj, UInt8.toNat_toUInt32, toNat_laneByte, h]
  have hzero : a + UInt32.ofNat 0 = a := UInt32.add_zero a
  cases w with
  | byte =>
    have hv := m68kReadMemory8_lt h
    rw [laneAddresses_byte]
    refine ⟨m68kReadMemory8_effect hn h, hv, fun k hk => ⟨t, ?_⟩⟩
    obtain rfl : k = 0 := Nat.lt_one_iff.mp hk
    rw [hzero, ← hbyte (b := v) (k := 0) (by simp [Width.lanes, Nat.mod_eq_of_lt hv])]
    exact h
  | word =>
    simp only [m68kReadMemory, m68kReadMemory16, Option.bind_eq_bind, Option.bind_eq_some_iff,
      Prod.exists, Option.pure_def, Option.some.injEq, Prod.mk.injEq] at h
    obtain ⟨b1, s1, r1, b0, s0, r0, rfl, rfl⟩ := h
    have hv := toNat_word (m68kReadMemory8_lt r0) (m68kReadMemory8_lt r1)
    have l1 := m68kReadMemory8_lt r1
    have l0 := m68kReadMemory8_lt r0
    obtain rfl := m68kReadMemory8_effect hn r1
    obtain rfl := m68kReadMemory8_effect hn r0
    rw [laneAddresses_word]
    simp only [Width.lanes] at hbyte ⊢
    refine ⟨rfl, by omega, fun k hk => ?_⟩
    obtain rfl | rfl : k = 0 ∨ k = 1 := by omega
    · exact ⟨_, by rw [hzero, ← hbyte (b := b0) (k := 0) (by omega)]; exact r0⟩
    · exact ⟨_, by rw [← hbyte (b := b1) (k := 1) (by omega)]; exact r1⟩
  | long =>
    simp only [m68kReadMemory, m68kReadMemory32, Option.bind_eq_bind, Option.bind_eq_some_iff,
      Prod.exists, Option.pure_def, Option.some.injEq, Prod.mk.injEq] at h
    obtain ⟨b3, s3, r3, b2, s2, r2, b1, s1, r1, b0, s0, r0, rfl, rfl⟩ := h
    have l3 := m68kReadMemory8_lt r3
    have l2 := m68kReadMemory8_lt r2
    have l1 := m68kReadMemory8_lt r1
    have l0 := m68kReadMemory8_lt r0
    have hv := toNat_long l0 l1 l2 l3
    obtain rfl := m68kReadMemory8_effect hn r3
    obtain rfl := m68kReadMemory8_effect hn r2
    obtain rfl := m68kReadMemory8_effect hn r1
    obtain rfl := m68kReadMemory8_effect hn r0
    rw [laneAddresses_long]
    simp only [Width.lanes] at hbyte ⊢
    refine ⟨rfl, by omega, fun k hk => ?_⟩
    obtain rfl | rfl | rfl | rfl : k = 0 ∨ k = 1 ∨ k = 2 ∨ k = 3 := by omega
    · exact ⟨_, by rw [hzero, ← hbyte (b := b0) (k := 0) (by omega)]; exact r0⟩
    · exact ⟨_, by rw [← hbyte (b := b1) (k := 1) (by omega)]; exact r1⟩
    · exact ⟨_, by rw [← hbyte (b := b2) (k := 2) (by omega)]; exact r2⟩
    · exact ⟨_, by rw [← hbyte (b := b3) (k := 3) (by omega)]; exact r3⟩

/-- The lanes of an access have different addresses. -/
theorem lane_inj {a : UInt32} {j k : Nat} (hj : j < 4) (hk : k < 4)
    (h : a + UInt32.ofNat j = a + UInt32.ofNat k) : j = k := by
  have heq := congrArg UInt32.toNat h
  rw [UInt32.toNat_add, UInt32.toNat_add, UInt32.toNat_ofNat', UInt32.toNat_ofNat'] at heq
  have := a.toNat_lt
  omega

/-- A lane's address does not occur among the later lanes. -/
theorem lane_not_mem_drop (w : Width) (a : UInt32) {k : Nat} (hk : k < w.lanes) :
    a + UInt32.ofNat k ∉ (laneAddresses w a).drop (k + 1) := by
  have hlanes := w.lanes_le
  intro hmem
  obtain ⟨i, hi, heq⟩ := List.getElem_of_mem hmem
  rw [List.getElem_drop] at heq
  simp only [laneAddresses, List.getElem_map, List.getElem_range] at heq
  simp only [laneAddresses, List.length_drop, List.length_map, List.length_range] at hi
  have := lane_inj (by omega) (by omega) heq
  omega

end Kyacopycat
