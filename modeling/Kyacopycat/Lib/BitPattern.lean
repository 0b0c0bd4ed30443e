import Mathlib.Data.List.Basic
import Mathlib.Data.Nat.Bitwise

/-!
Bit patterns with don't-care bits, as decoders use them.

A pattern fixes the bits of its mask to those of its value and leaves the others free. The words
it matches are its value with the free bits filled in (`matches_iff_exists`). In a list of
patterns ordered by a key, the last one that matches a word has the greatest key
(`key_le_of_lastMatch`).
-/

/-- The bits of `mask` are fixed to those of `value`. -/
structure BitPattern where
  mask : Nat
  value : Nat

namespace BitPattern

variable {p : BitPattern} {x : Nat}

def Matches (p : BitPattern) (x : Nat) : Prop := x &&& p.mask = p.value

instance (p : BitPattern) (x : Nat) : Decidable (p.Matches x) :=
  inferInstanceAs (Decidable (x &&& p.mask = p.value))

/-- The value fixes no free bit. -/
def Within (p : BitPattern) : Prop := p.value &&& p.mask = p.value

instance (p : BitPattern) : Decidable p.Within :=
  inferInstanceAs (Decidable (p.value &&& p.mask = p.value))

/-- What fills in the free bits matches. -/
theorem Within.matches_or (h : p.Within) {f : Nat} (hf : f &&& p.mask = 0) :
    p.Matches (p.value ||| f) := by
  rw [Matches, Nat.and_or_distrib_right, h, hf, Nat.or_zero]

/-- The words of `k` bits that a pattern matches. -/
theorem matches_iff_exists (h : p.Within) {k : Nat} (hx : x < 2 ^ k) :
    p.Matches x ↔ ∃ f, (f < 2 ^ k ∧ f &&& p.mask = 0) ∧ p.value ||| f = x := by
  constructor
  · intro hmatch
    have hvalue : p.value < 2 ^ k := hmatch ▸ Nat.lt_of_le_of_lt Nat.and_le_left hx
    refine ⟨x ^^^ p.value, ⟨Nat.xor_lt_two_pow hx hvalue, ?_⟩, ?_⟩
    · rw [Nat.and_xor_distrib_right, hmatch, h, Nat.xor_self]
    · refine Nat.eq_of_testBit_eq fun j => ?_
      rw [← hmatch]
      simp only [Nat.testBit_or, Nat.testBit_xor, Nat.testBit_and]
      cases x.testBit j <;> cases p.mask.testBit j <;> rfl
  · rintro ⟨f, ⟨-, hf⟩, rfl⟩
    exact h.matches_or hf

/-! ### Two patterns at once -/

/-- The bits of both patterns are fixed. -/
def union (p q : BitPattern) : BitPattern := ⟨p.mask ||| q.mask, p.value ||| q.value⟩

/-- What a value within one mask leaves under another that is disjoint from it. -/
theorem Within.and_disjoint (h : p.Within) {m : Nat} (disjoint : p.mask &&& m = 0) :
    p.value &&& m = 0 := by
  rw [← show p.value &&& p.mask = p.value from h, Nat.and_assoc, disjoint, Nat.and_zero]

section Union

variable {q : BitPattern}

/-- Patterns of disjoint fields are matched together. -/
theorem matches_union (hp : p.Within) (hq : q.Within) (disjoint : p.mask &&& q.mask = 0) :
    (p.union q).Matches x ↔ p.Matches x ∧ q.Matches x := by
  have disjoint' : q.mask &&& p.mask = 0 := by rw [Nat.and_comm, disjoint]
  constructor
  · intro h
    have hp' : (p.union q).mask &&& p.mask = p.mask := by
      rw [union, Nat.and_or_distrib_right, Nat.and_self, disjoint', Nat.or_zero]
    have hq' : (p.union q).mask &&& q.mask = q.mask := by
      rw [union, Nat.and_or_distrib_right, Nat.and_self, disjoint, Nat.zero_or]
    constructor
    · rw [Matches, ← hp', ← Nat.and_assoc, show x &&& _ = _ from h, union,
        Nat.and_or_distrib_right, hq.and_disjoint disjoint', Nat.or_zero]
      exact hp
    · rw [Matches, ← hq', ← Nat.and_assoc, show x &&& _ = _ from h, union,
        Nat.and_or_distrib_right, hp.and_disjoint disjoint, Nat.zero_or]
      exact hq
  · rintro ⟨hp, hq⟩
    rw [Matches, union, Nat.and_or_distrib_left, show x &&& p.mask = _ from hp,
      show x &&& q.mask = _ from hq]

theorem Within.union (hp : p.Within) (hq : q.Within) (disjoint : p.mask &&& q.mask = 0) :
    (p.union q).Within := by
  have hmatch := (matches_union hp hq disjoint (x := p.value ||| q.value)).mpr ⟨?_, ?_⟩
  · exact hmatch
  · rw [Matches, Nat.and_or_distrib_right, hp, hq.and_disjoint (by rw [Nat.and_comm, disjoint]),
      Nat.or_zero]
  · rw [Matches, Nat.and_or_distrib_right, hq, hp.and_disjoint disjoint, Nat.zero_or]

end Union

/-! ### Lists of patterns -/

variable {α : Type}

/-- The last element of a list with a property. -/
def lastMatch (q : α → Bool) (es : List α) : Option α := es.reverse.find? q

theorem lastMatch_append (q : α → Bool) (es es' : List α) :
    lastMatch q (es ++ es') = (lastMatch q es').or (lastMatch q es) := by
  rw [lastMatch, List.reverse_append, List.find?_append]
  rfl

theorem lastMatch_eq_none {q : α → Bool} {es : List α} :
    lastMatch q es = none ↔ ∀ e ∈ es, q e = false := by
  simp [lastMatch]

theorem mem_of_lastMatch {q : α → Bool} {es : List α} {e : α} (h : lastMatch q es = some e) :
    e ∈ es ∧ q e = true :=
  ⟨List.mem_reverse.mp (List.mem_of_find?_eq_some h), List.find?_some h⟩

/-- In an ordered list the last match has the greatest key. -/
theorem key_le_of_lastMatch {q : α → Bool} (key : α → Nat) {es : List α}
    (sorted : es.Pairwise (key · ≤ key ·)) {e e' : α} (h : lastMatch q es = some e)
    (mem : e' ∈ es) (hq : q e' = true) : key e' ≤ key e := by
  obtain ⟨-, before, after, hes, none⟩ := List.find?_eq_some_iff_append.mp h
  have hrev : es.reverse.Pairwise (fun a b => key b ≤ key a) := List.pairwise_reverse.mpr sorted
  rw [hes] at hrev
  have mem' := List.mem_reverse.mpr mem
  rw [hes] at mem'
  rcases List.mem_append.mp mem' with hbefore | hafter
  · exact absurd hq (by simpa using none e' hbefore)
  · rcases List.mem_cons.mp hafter with rfl | hafter
    · exact Nat.le_refl _
    · exact (List.pairwise_cons.mp (List.pairwise_append.mp hrev).2.1).1 e' hafter

/-- An ordered list whose keys are at least `k` begins with its elements of key `k`. -/
theorem exists_split {key : α → Nat} {k : Nat} {es : List α}
    (sorted : es.Pairwise (key · ≤ key ·)) (least : ∀ e ∈ es, k ≤ key e) :
    ∃ as bs, es = as ++ bs ∧ (∀ e ∈ as, key e = k) ∧ (∀ e ∈ bs, k < key e) := by
  induction es with
  | nil => exact ⟨[], [], rfl, fun _ h => absurd h List.not_mem_nil,
      fun _ h => absurd h List.not_mem_nil⟩
  | cons e es ih =>
    obtain ⟨hhead, htail⟩ := List.pairwise_cons.mp sorted
    by_cases he : key e = k
    · obtain ⟨as, bs, rfl, has, hbs⟩ := ih htail fun e' h => least e' (List.mem_cons_of_mem e h)
      exact ⟨e :: as, bs, rfl, List.forall_mem_cons.mpr ⟨he, has⟩, hbs⟩
    · have hlt : k < key e := Nat.lt_of_le_of_ne (least e List.mem_cons_self) (Ne.symm he)
      exact ⟨[], e :: es, rfl, fun _ h => absurd h List.not_mem_nil,
        List.forall_mem_cons.mpr ⟨hlt, fun e' h => Nat.lt_of_lt_of_le hlt (hhead e' h)⟩⟩

end BitPattern
