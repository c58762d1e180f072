import Mathlib.Tactic.Common

/-!
# `Directory`: files under names

A directory maps names to files; a file that is open stays the same file when its name goes away. `rename` puts a
file under another name in one step, in place of what was there. Without hard links a name has its file to itself,
so a write through an open file shows under one name only (`file_modify`).

## Contents
- **Directories.** `File`, `Dir`; `Dir.file`.
- **Calls.** `create`, `modify`, `rename`, `remove`, with what each does to the file under a name.
-/

namespace Directory

/-! ## Directories -/

/-- A file: what is in it, and its permissions. -/
structure File (B : Type) where
  content : List B
  mode : Nat
  deriving DecidableEq, Repr

/-- The files by number, and the number under each name. -/
structure Dir (B : Type) where
  entries : String → Option Nat
  files : Nat → File B
  next : Nat
  lt_next : ∀ n i, entries n = some i → i < next
  own : ∀ n m i, entries n = some i → entries m = some i → n = m

namespace Dir

variable {B : Type} {d : Dir B} {name n src dst : String} {i : Nat}

/-- The file under a name. -/
def file (d : Dir B) (n : String) : Option (File B) := (d.entries n).map d.files

theorem file_eq_none : d.file n = none ↔ d.entries n = none := Option.map_eq_none_iff

/-! ## Calls -/

/-- A new file. -/
def create (d : Dir B) (name : String) (f : File B) : Dir B where
  entries n := if n = name then some d.next else d.entries n
  files i := if i = d.next then f else d.files i
  next := d.next + 1
  lt_next n i h := by
    split at h
    · obtain rfl := Option.some.inj h
      exact Nat.lt_succ_self _
    · exact Nat.lt_succ_of_lt (d.lt_next n i h)
  own n m i h h' := by
    split at h <;> split at h'
    · rename_i hn hm
      exact hn.trans hm.symm
    · obtain rfl := Option.some.inj h
      exact absurd (d.lt_next m _ h') (Nat.lt_irrefl _)
    · obtain rfl := Option.some.inj h'
      exact absurd (d.lt_next n _ h) (Nat.lt_irrefl _)
    · exact d.own n m i h h'

/-- A write to an open file. -/
def modify (d : Dir B) (i : Nat) (g : File B → File B) : Dir B :=
  { d with files := fun j => if j = i then g (d.files j) else d.files j }

/-- The file under the one name is put under the other. -/
def rename (d : Dir B) (src dst : String) (i : Nat) (hsrc : d.entries src = some i) : Dir B where
  entries n := if n = dst then some i else if n = src then none else d.entries n
  files := d.files
  next := d.next
  lt_next n j h := by
    split at h
    · obtain rfl := Option.some.inj h
      exact d.lt_next src _ hsrc
    · split at h
      · exact absurd h (by simp)
      · exact d.lt_next n j h
  own n m j h h' := by
    have hother : ∀ x, x ≠ src → d.entries x = some j → j ≠ i := by
      rintro x hx hxj rfl
      exact hx (d.own x src j hxj hsrc)
    split at h <;> split at h'
    · rename_i hn hm
      exact hn.trans hm.symm
    · split at h'
      · exact absurd h' (by simp)
      · rename_i hm
        exact absurd (Option.some.inj h).symm (hother m hm h')
    · split at h
      · exact absurd h (by simp)
      · rename_i hn
        exact absurd (Option.some.inj h').symm (hother n hn h)
    · split at h
      · exact absurd h (by simp)
      · split at h'
        · exact absurd h' (by simp)
        · exact d.own n m j h h'

/-- The name is taken out of the directory; who has the file open keeps it. -/
def remove (d : Dir B) (name : String) : Dir B where
  entries n := if n = name then none else d.entries n
  files := d.files
  next := d.next
  lt_next n i h := by
    split at h
    · exact absurd h (by simp)
    · exact d.lt_next n i h
  own n m i h h' := by
    split at h
    · exact absurd h (by simp)
    · split at h'
      · exact absurd h' (by simp)
      · exact d.own n m i h h'

/-- Creating a file changes what that name shows and no other. -/
theorem file_create {f : File B} : (d.create name f).file n = if n = name then some f else d.file n := by
  unfold file create
  dsimp only
  split
  · simp
  · cases h : d.entries n with
    | none => rfl
    | some i =>
      have hne : i ≠ d.next := Nat.ne_of_lt (d.lt_next n i h)
      simp [hne]

/-- Writing through a name changes what that name shows and no other. -/
theorem file_modify {g : File B → File B} (hname : d.entries name = some i) :
    (d.modify i g).file n = if n = name then (d.file name).map g else d.file n := by
  unfold file modify
  dsimp only
  split
  · rename_i hn
    simp [hn, hname]
  · rename_i hn
    cases h : d.entries n with
    | none => rfl
    | some j =>
      have hne : j ≠ i := fun he => hn (d.own n name i (he ▸ h) hname)
      simp [hne]

theorem file_modify_self {f : File B} {g : File B → File B} (hname : d.entries name = some i)
    (hf : d.file name = some f) : (d.modify i g).file name = some (g f) := by
  rw [file_modify hname, if_pos rfl, hf]
  rfl

/-- A rename shows the source's file at the destination and nothing at the source. -/
theorem file_rename (hsrc : d.entries src = some i) :
    (d.rename src dst i hsrc).file n = if n = dst then d.file src else if n = src then none else d.file n := by
  unfold file rename
  dsimp only
  split
  · simp [hsrc]
  · split <;> rfl

/-- Removing a file empties that name and no other. -/
theorem file_remove : (d.remove name).file n = if n = name then none else d.file n := by
  unfold file remove
  dsimp only
  split <;> rfl

end Dir

end Directory
