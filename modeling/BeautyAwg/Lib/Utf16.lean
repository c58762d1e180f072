import Mathlib.Data.List.Lex
import Mathlib.Order.Basic
import Mathlib.Tactic.Common

/-!
# `Utf16`: texts in the order of their code units

A text as UTF-16 code units, the order that a default sort of strings follows, and a sorted pair.
-/

namespace Utf16

/-- The code units of a character: itself, or a surrogate pair. -/
def units (c : Char) : List Nat :=
  if c.toNat < 0x10000 then [c.toNat]
  else [0xD800 + (c.toNat - 0x10000) / 0x400, 0xDC00 + (c.toNat - 0x10000) % 0x400]

/-- A text as its units in UTF-16. -/
def encode (s : List Char) : List Nat := s.flatMap units

/-- No character is a surrogate. -/
theorem toNat_valid (c : Char) : c.toNat < 0xD800 ∨ 0xDFFF < c.toNat ∧ c.toNat < 0x110000 := c.valid

theorem encode_cons (c : Char) (s : List Char) : encode (c :: s) = units c ++ encode s := List.flatMap_cons

theorem units_ne_nil (c : Char) : units c ≠ [] := by
  unfold units
  split <;> exact List.cons_ne_nil _ _

/-- The units of a text determine its first character. -/
theorem units_append_inj {c d : Char} {s t : List Nat} (h : units c ++ s = units d ++ t) : c = d ∧ s = t := by
  have hc := toNat_valid c
  have hd := toNat_valid d
  unfold units at h
  split at h
  · split at h
    · obtain ⟨hcd, hst⟩ := List.cons.inj h
      exact ⟨Char.toNat_inj.mp hcd, hst⟩
    · have := (List.cons.inj h).1
      omega
  · split at h
    · have := (List.cons.inj h).1
      omega
    · obtain ⟨hhigh, hrest⟩ := List.cons.inj h
      obtain ⟨hlow, hst⟩ := List.cons.inj hrest
      exact ⟨Char.toNat_inj.mp (by omega), hst⟩

/-- Two texts with the same code units are the same text. -/
theorem encode_injective : Function.Injective encode := by
  intro s t h
  induction s generalizing t with
  | nil =>
    cases t with
    | nil => rfl
    | cons d t =>
      rw [encode_cons] at h
      exact absurd (List.append_eq_nil_iff.mp h.symm).1 (units_ne_nil d)
  | cons c s ih =>
    cases t with
    | nil =>
      rw [encode_cons] at h
      exact absurd (List.append_eq_nil_iff.mp h).1 (units_ne_nil c)
    | cons d t =>
      rw [encode_cons, encode_cons] at h
      obtain ⟨rfl, hrest⟩ := units_append_inj h
      rw [ih hrest]

/-- Two texts sorted. -/
def sortPair (a b : String) : String × String := if encode b.toList < encode a.toList then (b, a) else (a, b)

theorem sortPair_cases (a b : String) : sortPair a b = (a, b) ∨ sortPair a b = (b, a) := by
  unfold sortPair
  split
  · exact .inr rfl
  · exact .inl rfl

/-- The order of the two does not matter. -/
theorem sortPair_comm (a b : String) : sortPair a b = sortPair b a := by
  unfold sortPair
  rcases lt_trichotomy (encode a.toList) (encode b.toList) with hlt | heq | hgt
  · rw [if_neg (lt_asymm hlt), if_pos hlt]
  · rw [String.toList_inj.mp (encode_injective heq)]
  · rw [if_pos hgt, if_neg (lt_asymm hgt)]

end Utf16
