import Kyacopycat.Lib.BigEndian

/-!
A stack of frames in a memory of bytes, growing downwards.

A frame is a number in a block of bytes. `Stacked mem p fs` says that from `p` upwards the memory
holds the frames of the list, the innermost one first.

* `Frame.Holds.poke`: a store apart from a frame leaves it alone.
* `Stacked.push`: a store right below the stack is a new frame.
* `Stacked.congr`: what leaves the bytes of the frames alone leaves the stack alone.
-/

namespace FrameStack

open BigEndian

/-- A frame: a number in `size` bytes at `base`. -/
structure Frame where
  base : Nat
  size : Nat
  value : Nat

/-- The address above a frame. -/
def Frame.top (f : Frame) : Nat := f.base + f.size

/-- The byte at `i` belongs to a frame. -/
def Frame.Covers (f : Frame) (i : Nat) : Prop := f.base ≤ i ∧ i < f.top

/-- The memory holds a frame. -/
def Frame.Holds (f : Frame) (mem : Memory) : Prop :=
  BigEndian.value mem f.base f.size = f.value

/-- None of the `k` bytes at `p` belongs to a frame. -/
def Frame.Apart (f : Frame) (p k : Nat) : Prop := f.top ≤ p ∨ p + k ≤ f.base

/-- From `p` upwards the memory holds these frames. -/
def Stacked (mem : Memory) : Nat → List Frame → Prop
  | _, [] => True
  | p, f :: fs => p ≤ f.base ∧ f.Holds mem ∧ Stacked mem f.top fs

variable {mem mem' : Memory} {p q k v : Nat} {f : Frame} {fs : List Frame}

/-- Only the bytes of the frame matter. -/
theorem Frame.Holds.congr (h : f.Holds mem) (same : ∀ i, f.Covers i → mem' i = mem i) :
    f.Holds mem' := by
  refine Eq.trans ?_ h
  exact value_congr fun i lo hi => same i ⟨lo, hi⟩

/-- A store apart from a frame leaves it alone. -/
theorem Frame.Holds.poke (h : f.Holds mem) (apart : f.Apart p k) (v : Nat) :
    f.Holds (BigEndian.poke mem p k v) := by
  refine h.congr fun i hi => poke_of_not_mem mem v ?_
  obtain ⟨lo, hi⟩ := hi
  rcases apart with below | above
  · omega
  · omega

/-- A store is a frame. -/
theorem holds_poke (lt : v < 256 ^ k) : Frame.Holds ⟨p, k, v⟩ (poke mem p k v) := by
  rw [Frame.Holds, value_poke, Nat.mod_eq_of_lt lt]

theorem Stacked.lower (h : Stacked mem p fs) (hq : q ≤ p) : Stacked mem q fs := by
  cases fs with
  | nil => trivial
  | cons f fs =>
    obtain ⟨le, here, rest⟩ := h
    exact ⟨hq.trans le, here, rest⟩

/-- A stack starts at its innermost frame. -/
theorem Stacked.raise (h : Stacked mem q fs) (hp : ∀ f ∈ fs.head?, p ≤ f.base) :
    Stacked mem p fs := by
  cases fs with
  | nil => trivial
  | cons f fs =>
    obtain ⟨-, here, rest⟩ := h
    exact ⟨hp f rfl, here, rest⟩

/-- Only the bytes of the frames matter. -/
theorem Stacked.congr (h : Stacked mem p fs)
    (same : ∀ f ∈ fs, ∀ i, f.Covers i → mem' i = mem i) : Stacked mem' p fs := by
  induction fs generalizing p with
  | nil => trivial
  | cons f fs ih =>
    obtain ⟨le, here, rest⟩ := h
    exact ⟨le, here.congr (same f List.mem_cons_self),
      ih rest fun g hg => same g (List.mem_cons_of_mem f hg)⟩

/-- Every frame of a stack lies above its start. -/
theorem Stacked.le_base (h : Stacked mem p fs) : ∀ f ∈ fs, p ≤ f.base := by
  induction fs generalizing p with
  | nil => exact fun f hf => absurd hf List.not_mem_nil
  | cons g fs ih =>
    obtain ⟨le, -, rest⟩ := h
    intro f hf
    rcases List.mem_cons.mp hf with rfl | hf
    · exact le
    · exact (le.trans (Nat.le_add_right _ _)).trans (ih rest f hf)

/-- A store right below the stack is a new frame. -/
theorem Stacked.push (h : Stacked mem p fs) (fits : k ≤ p) (lt : v < 256 ^ k) :
    Stacked (poke mem (p - k) k v) (p - k) (⟨p - k, k, v⟩ :: fs) := by
  have htop : Frame.top ⟨p - k, k, v⟩ = p := Nat.sub_add_cancel fits
  refine ⟨Nat.le_refl _, holds_poke lt, ?_⟩
  rw [htop]
  refine h.congr fun f hf i hi => poke_of_not_mem mem v ?_
  obtain ⟨lo, -⟩ := hi
  have hbase := h.le_base f hf
  omega

theorem Stacked.tail (h : Stacked mem p (f :: fs)) : Stacked mem f.top fs := h.2.2

theorem Stacked.head (h : Stacked mem p (f :: fs)) : f.Holds mem := h.2.1

end FrameStack
