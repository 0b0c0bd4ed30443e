import Kyacopycat.Lib.CArray

/-!
Files as C's standard library sees them.

A file is a list of bytes and `Files` says which file each name names, if any. `Host` is
what the operating system allows; a file that may not be updated may not be truncated
either.

* `fopen_keeps`, `openUpdate_keeps`: which opens leave the files that exist as they are.
* `readItem_of_prefix`, `overwrite_prefix`: reading one item from a file into an array,
  and writing an array over the start of a file; together they are a round trip.
-/

namespace Stdio

variable {Path : Type}

/-- The contents of the files, by name. -/
abbrev Files (Path : Type) := Path → Option (List UInt8)

/-- The modes `"rb"`, `"r+b"`, `"w+b"` and `"ab"`. -/
inductive Mode where
  | read
  | update
  | truncate
  | append
  deriving DecidableEq, Repr

/-- What the operating system allows: opening a file that exists, in a mode, and creating
one that does not. -/
structure Host (Path : Type) where
  permits : Mode → Path → Bool
  creates : Path → Bool
  truncate_update : ∀ p, permits .truncate p = true → permits .update p = true

/-- Every file of the first that is not excepted has the same bytes in the second. -/
def Keeps (except : Path → Prop) (files files' : Files Path) : Prop :=
  ∀ q bytes, ¬ except q → files q = some bytes → files' q = some bytes

theorem Keeps.refl (except : Path → Prop) (files : Files Path) : Keeps except files files :=
  fun _ _ _ h => h

theorem Keeps.trans {except : Path → Prop} {f g h : Files Path} (hfg : Keeps except f g)
    (hgh : Keeps except g h) : Keeps except f h :=
  fun q bytes hq hf => hgh q bytes hq (hfg q bytes hq hf)

theorem Keeps.mono {except except' : Path → Prop} {f g : Files Path} (h : Keeps except f g)
    (sub : ∀ q, except q → except' q) : Keeps except' f g :=
  fun q bytes hq hf => h q bytes (fun he => hq (sub q he)) hf

variable [DecidableEq Path]

/-! ### Opening files -/

/-- `fopen`: the files after the file was opened, or `none` for a `NULL` stream. -/
def fopen (host : Host Path) (files : Files Path) (mode : Mode) (path : Path) :
    Option (Files Path) :=
  match files path with
  | some _ =>
    if host.permits mode path then
      match mode with
      | .truncate => some (Function.update files path (some []))
      | .read | .update | .append => some files
    else none
  | none =>
    match mode with
    | .truncate | .append =>
      if host.creates path then some (Function.update files path (some [])) else none
    | .read | .update => none

/-- Open for update, creating the file when that fails: `fopen` with `"r+b"` and then with
`"w+b"`. -/
def openUpdate (host : Host Path) (files : Files Path) (path : Path) : Option (Files Path) :=
  match fopen host files .update path with
  | some files' => some files'
  | none => fopen host files .truncate path

/-- Creating a file leaves the files that exist as they are. -/
theorem keeps_create (except : Path → Prop) {files : Files Path} {path : Path}
    (h : files path = none) (bytes : List UInt8) :
    Keeps except files (Function.update files path (some bytes)) := by
  intro q old _ hq
  rw [Function.update_of_ne, hq]
  rintro rfl
  rw [h] at hq
  cases hq

/-- Opening a file changes no file that exists, except that `"w+b"` empties its own. -/
theorem fopen_keeps {host : Host Path} {files files' : Files Path} {mode : Mode} {path : Path}
    (h : fopen host files mode path = some files') :
    Keeps (fun q => mode = .truncate ∧ q = path) files files' := by
  unfold fopen at h
  split at h
  next bytes _ =>
    split at h
    · cases mode with
      | truncate =>
        obtain rfl := Option.some.inj h
        intro q old hq hold
        rw [Function.update_of_ne fun heq => hq ⟨rfl, heq⟩, hold]
      | read => exact Option.some.inj h ▸ Keeps.refl _ _
      | update => exact Option.some.inj h ▸ Keeps.refl _ _
      | append => exact Option.some.inj h ▸ Keeps.refl _ _
    · cases h
  next hnone =>
    cases mode with
    | truncate =>
      dsimp only at h
      split at h
      · exact Option.some.inj h ▸ keeps_create _ hnone []
      · cases h
    | append =>
      dsimp only at h
      split at h
      · exact Option.some.inj h ▸ keeps_create _ hnone []
      · cases h
    | read => cases h
    | update => cases h

/-- Opening for update, with creation as the fallback, empties no file that exists. -/
theorem openUpdate_keeps (except : Path → Prop) {host : Host Path} {files files' : Files Path}
    {path : Path} (h : openUpdate host files path = some files') : Keeps except files files' := by
  unfold openUpdate at h
  split at h
  next hopen =>
    obtain rfl := Option.some.inj h
    exact (fopen_keeps hopen).mono fun q hq => absurd hq.1 (by decide)
  next hclosed =>
    cases hpath : files path with
    | none =>
      simp only [fopen, hpath] at h
      split at h
      · exact Option.some.inj h ▸ keeps_create _ hpath []
      · cases h
    | some bytes =>
      -- The file exists and may not be updated, so the second open fails as well.
      simp only [fopen, hpath] at h hclosed
      have hdenied : ¬ host.permits .update path = true := fun hp => by simp [hp] at hclosed
      have htruncate : ¬ host.permits .truncate path = true := fun hp =>
        hdenied (host.truncate_update path hp)
      rw [if_neg htruncate] at h
      cases h

/-! ### Items -/

/-- `fread` of one item of `n` bytes into an array, from a stream at its start: what the
array holds afterwards, and whether the item was complete. -/
def readItem {n : Nat} (a : CArray UInt8 n) (bytes : List UInt8) : CArray UInt8 n × Bool :=
  (a.ofBytes bytes, decide (n ≤ bytes.length))

/-- The bytes of a file after `rewind` and a write of `new`. -/
def overwrite (old new : List UInt8) : List UInt8 :=
  new ++ old.drop new.length

/-- Write `new` over the start of a file. -/
def rewrite (files : Files Path) (path : Path) (new : List UInt8) : Files Path :=
  Function.update files path (some (overwrite ((files path).getD []) new))

/-- Add bytes at the end of a file. -/
def extend (files : Files Path) (path : Path) (more : List UInt8) : Files Path :=
  Function.update files path (some ((files path).getD [] ++ more))

theorem overwrite_prefix (old new : List UInt8) : new <+: overwrite old new :=
  List.prefix_append _ _

/-- A file that starts with the elements of an array restores the array. -/
theorem readItem_of_prefix {n : Nat} {a b : CArray UInt8 n} {bytes : List UInt8}
    (h : a.toList <+: bytes) : readItem b bytes = (a, true) := by
  obtain ⟨rest, rfl⟩ := h
  have hlen : n ≤ (a.toList ++ rest).length := by simp
  rw [readItem, CArray.ofBytes_toList, decide_eq_true hlen]

/-- Extending any file keeps what a file starts with. -/
theorem prefix_extend {files : Files Path} {path q : Path} {start : List UInt8}
    (h : ∃ bytes, files q = some bytes ∧ start <+: bytes) (more : List UInt8) :
    ∃ bytes, extend files path more q = some bytes ∧ start <+: bytes := by
  obtain ⟨bytes, hq, hstart⟩ := h
  by_cases heq : q = path
  · subst heq
    refine ⟨bytes ++ more, ?_, hstart.trans (List.prefix_append _ _)⟩
    rw [extend, Function.update_self, hq]
    rfl
  · exact ⟨bytes, by rw [extend, Function.update_of_ne heq, hq], hstart⟩

/-- A rewritten file starts with what was written. -/
theorem rewrite_self (files : Files Path) (path : Path) (new : List UInt8) :
    ∃ bytes, rewrite files path new path = some bytes ∧ new <+: bytes :=
  ⟨_, Function.update_self _ _ _, overwrite_prefix _ _⟩

theorem rewrite_of_ne (files : Files Path) {path q : Path} (h : q ≠ path) (new : List UInt8) :
    rewrite files path new q = files q :=
  Function.update_of_ne h _ _

end Stdio
