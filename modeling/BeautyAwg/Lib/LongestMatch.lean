import Mathlib.Data.List.Induction
import BeautyAwg.Lib.Netip

/-!
# `LongestMatch`: longest-prefix lookup

A routing table is a list of prefixes with a value each. Of the entries that contain an address the longest
one counts, and of two of one length the later, which has replaced the other.
-/

namespace Netip

variable {α : Type} {table : List (Prefix × α)} {a : Addr}

/-- The better of the best match so far and the next entry. -/
def betterMatch (a : Addr) (best : Option (Prefix × α)) (e : Prefix × α) : Option (Prefix × α) :=
  if e.1.contains a ∧ best.all fun b => b.1.bits ≤ e.1.bits then some e else best

/-- The value of the longest match. -/
def longestMatch (table : List (Prefix × α)) (a : Addr) : Option α :=
  (table.foldl (betterMatch a) none).map Prod.snd

/-- What the best match of a table is. -/
def IsBest (table : List (Prefix × α)) (a : Addr) : Option (Prefix × α) → Prop
  | none => ∀ e ∈ table, e.1.contains a = false
  | some e => e ∈ table ∧ e.1.contains a = true ∧ ∀ e' ∈ table, e'.1.contains a = true → e'.1.bits ≤ e.1.bits

/-- **Step.** One more entry. -/
theorem isBest_concat {best : Option (Prefix × α)} {e : Prefix × α} (h : IsBest table a best) :
    IsBest (table ++ [e]) a (betterMatch a best e) := by
  unfold betterMatch
  cases best with
  | none =>
    split
    · rename_i hnew
      refine ⟨by simp, hnew.1, fun e' he' hc => ?_⟩
      rcases List.mem_append.mp he' with he' | he'
      · -- nothing before matched
        exact absurd ((h e' he').symm.trans hc) (by simp)
      · rw [List.mem_singleton.mp he']
    · rename_i hold
      intro e' he'
      rcases List.mem_append.mp he' with he' | he'
      · exact h e' he'
      · rw [List.mem_singleton.mp he']
        simpa using hold
  | some b =>
    obtain ⟨hmem, hbest, hlongest⟩ := h
    split
    · rename_i hnew
      -- the new one matches and is no shorter than the best so far
      have hle : b.1.bits ≤ e.1.bits := by simpa using hnew.2
      refine ⟨by simp, hnew.1, fun e' he' hc => ?_⟩
      rcases List.mem_append.mp he' with he' | he'
      · exact (hlongest e' he' hc).trans hle
      · rw [List.mem_singleton.mp he']
    · rename_i hold
      refine ⟨List.mem_append_left _ hmem, hbest, fun e' he' hc => ?_⟩
      rcases List.mem_append.mp he' with he' | he'
      · exact hlongest e' he' hc
      · obtain rfl := List.mem_singleton.mp he'
        -- it matches, so it was passed over for being shorter
        have hlt : ¬ b.1.bits ≤ e'.1.bits := by simpa [hc] using hold
        omega

/-- The lookup finds the best match. -/
theorem isBest_foldl (table : List (Prefix × α)) (a : Addr) : IsBest table a (table.foldl (betterMatch a) none) := by
  induction table using List.reverseRecOn with
  | nil => exact fun e he => absurd he List.not_mem_nil
  | append_singleton l e ih =>
    rw [List.foldl_append]
    exact isBest_concat ih

/-- **Lookup without contention.** When all entries that contain the address have one value, that value is
    found. -/
theorem longestMatch_eq {x : α} (hsome : ∃ e ∈ table, e.1.contains a = true)
    (hall : ∀ e ∈ table, e.1.contains a = true → e.2 = x) : longestMatch table a = some x := by
  have hbest := isBest_foldl table a
  unfold longestMatch
  cases hfound : table.foldl (betterMatch a) none with
  | none =>
    rw [hfound] at hbest
    obtain ⟨e, he, hc⟩ := hsome
    exact absurd ((hbest e he).symm.trans hc) (by simp)
  | some e =>
    rw [hfound] at hbest
    exact congrArg some (hall e hbest.1 hbest.2.1)

/-- What is found is the value of an entry that contains the address. -/
theorem mem_of_longestMatch {x : α} (h : longestMatch table a = some x) :
    ∃ e ∈ table, e.1.contains a = true ∧ e.2 = x := by
  have hbest := isBest_foldl table a
  unfold longestMatch at h
  cases hfound : table.foldl (betterMatch a) none with
  | none =>
    rw [hfound] at h
    exact absurd h (by simp)
  | some e =>
    rw [hfound] at h hbest
    exact ⟨e, hbest.1, hbest.2.1, Option.some.inj h⟩

/-- Something is found as soon as one entry contains the address. -/
theorem exists_longestMatch {e : Prefix × α} (he : e ∈ table) (hc : e.1.contains a = true) :
    ∃ x, longestMatch table a = some x := by
  have hbest := isBest_foldl table a
  unfold longestMatch
  cases hfound : table.foldl (betterMatch a) none with
  | none =>
    rw [hfound] at hbest
    exact absurd ((hbest e he).symm.trans hc) (by simp)
  | some e' => exact ⟨e'.2, rfl⟩

example : longestMatch [(⟨.ofBytes 10 0 0 0, 8⟩, 1), (⟨.ofBytes 10 8 0 0, 24⟩, 2), (⟨.ofBytes 10 8 0 0, 16⟩, 3)]
    (.ofBytes 10 8 0 7) = some 2 := by decide

end Netip
