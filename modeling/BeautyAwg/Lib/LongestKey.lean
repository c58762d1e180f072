import Mathlib.Data.List.Infix
import Mathlib.Data.List.Induction
import Mathlib.Algebra.Order.BigOperators.Group.List
import Mathlib.Algebra.Order.Ring.Nat

/-!
# `LongestKey`: lookup by the longest suffix of a dotted name

A name is a text in which a separator stands between labels. A key captures a name when it is the name, or what
stands behind one of its separators; said of labels, when its labels are the last labels of the name
(`captures_iff_labels`). Of the keys that capture a name one is the longest, whatever length is measured in
(`eq_of_captures`), and a scan that keeps the longest so far finds it in any order (`longest_cases`).

## Contents
- **Capture.** `Captures`, `captures_iff_labels`.
- **Length.** `weight`, `eq_of_captures`, `Captures.of_longer`.
- **Scan.** `better`, `longest`, `longest_cases`.
-/

namespace LongestKey

variable {α : Type}

/-! ## Capture -/

section Capture

variable {dot : α} {key key' name : List α}

/-- The key is the name or, after a separator, its end. -/
def Captures (dot : α) (key name : List α) : Prop := name = key ∨ (dot :: key) <:+ name

instance [DecidableEq α] : Decidable (Captures dot key name) := inferInstanceAs (Decidable (_ ∨ _))

/-- A key captures the name that it is. -/
theorem captures_self (dot : α) (name : List α) : Captures dot name name := .inl rfl

/-- A key captures every host below it. -/
theorem captures_append (dot : α) (host key : List α) : Captures dot key (host ++ dot :: key) :=
  .inr (List.suffix_append host (dot :: key))

/-- A key that captures a name is a suffix of it. -/
theorem Captures.suffix (h : Captures dot key name) : key <:+ name := by
  rcases h with rfl | h
  · exact List.suffix_refl _
  · exact (List.suffix_cons dot key).trans h

theorem intercalate_append [DecidableEq α] {ls ls' : List (List α)} (hls : ls ≠ []) (hls' : ls' ≠ []) :
    [dot].intercalate (ls ++ ls') = [dot].intercalate ls ++ dot :: [dot].intercalate ls' := by
  induction ls with
  | nil => exact absurd rfl hls
  | cons l ls ih =>
    by_cases hnil : ls = []
    · subst hnil
      rw [List.singleton_append, List.intercalate_cons_of_ne_nil hls', List.intercalate_singleton,
        List.append_assoc, List.singleton_append]
    · rw [List.cons_append, List.intercalate_cons_of_ne_nil (by simp [hnil]), ih hnil,
        List.intercalate_cons_of_ne_nil hnil, List.append_assoc, List.append_assoc, List.append_assoc]

/-- **Capture, label by label.** -/
theorem captures_iff_labels [DecidableEq α] : Captures dot key name ↔ key.splitOn dot <:+ name.splitOn dot := by
  constructor
  · rintro (rfl | ⟨host, rfl⟩)
    · exact List.suffix_refl _
    · rw [List.splitOn_append_cons_self]
      exact List.suffix_append _ _
  · rintro ⟨ls, hls⟩
    have hname := congrArg (List.intercalate [dot]) hls
    rw [List.intercalate_splitOn] at hname
    by_cases hnil : ls = []
    · rw [hnil, List.nil_append, List.intercalate_splitOn] at hname
      exact .inl hname.symm
    · rw [intercalate_append hnil (List.splitOn_ne_nil dot key), List.intercalate_splitOn] at hname
      rw [← hname]
      exact captures_append dot _ key

end Capture

/-! ## Length -/

section Length

variable {size : α → Nat} {dot : α} {key key' name : List α}

/-- The length of a text whose letters have a size each. -/
def weight (size : α → Nat) (l : List α) : Nat := (l.map size).sum

theorem weight_append (l l' : List α) : weight size (l ++ l') = weight size l + weight size l' := by
  rw [weight, List.map_append, List.sum_append]
  rfl

theorem eq_nil_of_weight (hpos : ∀ a, 0 < size a) {l : List α} (h : weight size l = 0) : l = [] := by
  cases l with
  | nil => rfl
  | cons a l =>
    rw [weight, List.map_cons, List.sum_cons] at h
    have := hpos a
    omega

/-- A suffix weighs no more than the whole. -/
theorem weight_le_of_suffix (h : key <:+ name) : weight size key ≤ weight size name := by
  obtain ⟨l, rfl⟩ := h
  rw [weight_append]
  exact Nat.le_add_left _ _

/-- Ends of one name that are of one length are the same. -/
theorem eq_of_suffix_of_weight (hpos : ∀ a, 0 < size a) (h : key <:+ key')
    (hlen : weight size key' ≤ weight size key) : key = key' := by
  obtain ⟨l, rfl⟩ := h
  rw [weight_append] at hlen
  rw [eq_nil_of_weight hpos (l := l) (by omega), List.nil_append]

/-- **The longest key is unique.** -/
theorem eq_of_captures (hpos : ∀ a, 0 < size a) (h : Captures dot key name) (h' : Captures dot key' name)
    (hlen : weight size key = weight size key') : key = key' := by
  rcases List.suffix_or_suffix_of_suffix h.suffix h'.suffix with hsuf | hsuf
  · exact eq_of_suffix_of_weight hpos hsuf hlen.ge
  · exact (eq_of_suffix_of_weight hpos hsuf hlen.le).symm

/-- Of two keys that capture a name the longer is captured by the shorter. -/
theorem Captures.of_longer (hpos : ∀ a, 0 < size a) (h : Captures dot key name) (h' : Captures dot key' name)
    (hlen : weight size key ≤ weight size key') : Captures dot key key' := by
  rcases h with rfl | h
  · exact .inl (eq_of_suffix_of_weight hpos h'.suffix hlen)
  · rcases List.suffix_or_suffix_of_suffix h h'.suffix with hsuf | hsuf
    · exact .inr hsuf
    · rcases List.suffix_cons_iff.mp hsuf with rfl | hsuf
      · exact .inr (List.suffix_refl _)
      · exact .inl (eq_of_suffix_of_weight hpos hsuf hlen)

end Length

/-! ## Scan -/

section Scan

variable {κ β : Type} (captures : κ → Prop) [DecidablePred captures] (len : κ → Nat)

/-- The best value so far and the length of its key, after one more entry. -/
def better (best : β × Int) (e : κ × β) : β × Int :=
  if captures e.1 ∧ best.2 < len e.1 then (e.2, len e.1) else best

/-- The value of the longest key that captures, else the default. -/
def longest (entries : List (κ × β)) (default : β) : β := (entries.foldl (better captures len) (default, -1)).1

/-- What the scan has found in the entries so far. -/
def IsLongest (entries : List (κ × β)) (default : β) (best : β × Int) : Prop :=
  (∃ e ∈ entries, captures e.1 ∧ (∀ e' ∈ entries, captures e'.1 → len e'.1 ≤ len e.1) ∧ best = (e.2, (len e.1 : Int))) ∨
    (∀ e ∈ entries, ¬ captures e.1) ∧ best = (default, -1)

variable {captures len} {entries : List (κ × β)} {default : β} {best : β × Int}

/-- **Step.** One more entry. -/
theorem isLongest_concat (h : IsLongest captures len entries default best) (e : κ × β) :
    IsLongest captures len (entries ++ [e]) default (better captures len best e) := by
  unfold better
  split
  · -- it captures and is longer than the best, so than all
    rename_i hnew
    obtain ⟨hcap, hlen⟩ := hnew
    refine .inl ⟨e, by simp, hcap, fun e' he' hcap' => ?_, rfl⟩
    rcases List.mem_append.mp he' with hold | hlast
    · rcases h with ⟨b, -, -, hmax, rfl⟩ | ⟨hnone, -⟩
      · have hle := hmax e' hold hcap'
        dsimp only at hlen
        omega
      · exact absurd hcap' (hnone e' hold)
    · rw [List.mem_singleton.mp hlast]
  · -- it does not capture or is no longer, and the best stays
    rename_i hold
    rcases h with ⟨b, hb, hcap, hmax, rfl⟩ | ⟨hnone, rfl⟩
    · refine .inl ⟨b, List.mem_append_left _ hb, hcap, fun e' he' hcap' => ?_, rfl⟩
      rcases List.mem_append.mp he' with hin | hlast
      · exact hmax e' hin hcap'
      · obtain rfl := List.mem_singleton.mp hlast
        have hnot : ¬ (len b.1 : Int) < len e'.1 := fun hlt => hold ⟨hcap', hlt⟩
        omega
    · refine .inr ⟨fun e' he' hcap' => ?_, rfl⟩
      rcases List.mem_append.mp he' with hin | hlast
      · exact hnone e' hin hcap'
      · obtain rfl := List.mem_singleton.mp hlast
        exact hold ⟨hcap', by dsimp only; omega⟩

/-- Going through the entries and keeping the better one ends with the longest key that captures. -/
theorem isLongest_foldl (entries : List (κ × β)) (default : β) :
    IsLongest captures len entries default (entries.foldl (better captures len) (default, -1)) := by
  induction entries using List.reverseRecOn with
  | nil => exact .inr ⟨fun e he => absurd he List.not_mem_nil, rfl⟩
  | append_singleton l e ih =>
    rw [List.foldl_append]
    exact isLongest_concat ih e

/-- **The scan.** It returns the value of a longest key that captures, or the default. -/
theorem longest_cases (entries : List (κ × β)) (default : β) :
    (∃ e ∈ entries, captures e.1 ∧ (∀ e' ∈ entries, captures e'.1 → len e'.1 ≤ len e.1) ∧
      longest captures len entries default = e.2) ∨
    (∀ e ∈ entries, ¬ captures e.1) ∧ longest captures len entries default = default := by
  have hscan : IsLongest captures len entries default _ := isLongest_foldl entries default
  rcases hscan with ⟨e, he, hcap, hmax, hbest⟩ | ⟨hnone, hbest⟩
  · exact .inl ⟨e, he, hcap, hmax, congrArg Prod.fst hbest⟩
  · exact .inr ⟨hnone, congrArg Prod.fst hbest⟩

end Scan

end LongestKey
