import Mathlib.Algebra.Order.Ring.Nat
import Mathlib.Tactic.Common

/-!
# `Bytes`: byte strings

Text as bytes, in ASCII and in UTF-8, numbers as four bytes, and texts in two parts around a separator. What is
written is read back: `chars_ascii`, `ofUtf8_utf8`, `ofBe32_be32`, `splitN_eq_some`, `splitLast_eq_some`.
-/

/-- A byte string. -/
abbrev Bytes := List UInt8

namespace Bytes

/-! ## Text -/

section Text

/-- The bytes of an ASCII text. -/
def ascii (cs : List Char) : Bytes := cs.map Char.toUInt8

/-- Bytes as characters, one for each. -/
def chars (s : Bytes) : List Char := s.map Char.ofUInt8

theorem ofUInt8_toUInt8 {c : Char} (h : c.toNat < 256) : Char.ofUInt8 c.toUInt8 = c := by
  apply Char.toNat_inj.mp
  show c.toUInt8.toUInt32.toNat = c.toNat
  rw [UInt8.toNat_toUInt32, Char.toUInt8, UInt32.toNat_toUInt8]
  exact Nat.mod_eq_of_lt h

/-- Latin-1 characters written as bytes are read back as they were. -/
theorem chars_ascii {cs : List Char} (h : ∀ c ∈ cs, c.toNat < 256) : chars (ascii cs) = cs := by
  unfold chars ascii
  rw [List.map_map]
  exact (List.map_congr_left fun c hc => ofUInt8_toUInt8 (h c hc)).trans (List.map_id cs)

/-- A text as its bytes in UTF-8. -/
def utf8 (cs : List Char) : Bytes := cs.flatMap String.utf8EncodeChar

/-- The text, if the bytes are valid UTF-8. -/
def ofUtf8 (s : Bytes) : Option (List Char) := s.toByteArray.utf8Decode?.map Array.toList

/-- Decoding the UTF-8 of a text gives the text. -/
theorem ofUtf8_utf8 (cs : List Char) : ofUtf8 (utf8 cs) = some cs := by
  have hbytes : (utf8 cs).toByteArray = cs.utf8Encode := rfl
  rw [ofUtf8, hbytes, List.utf8Decode?_utf8Encode]
  rfl

end Text

/-! ## Numbers -/

/-- `binary.BigEndian` of a `uint32`. -/
def be32 (n : Nat) : Bytes :=
  [UInt8.ofNat (n / 2 ^ 24), UInt8.ofNat (n / 2 ^ 16), UInt8.ofNat (n / 2 ^ 8), UInt8.ofNat n]

/-- The number that four bytes are, the highest first. -/
def ofBe32 (a b c d : UInt8) : Nat := a.toNat * 2 ^ 24 + b.toNat * 2 ^ 16 + c.toNat * 2 ^ 8 + d.toNat

/-- The four big-endian bytes of a 32-bit number give the number back. -/
theorem ofBe32_be32 {n : Nat} (h : n < 2 ^ 32) : ∃ a b c d, be32 n = [a, b, c, d] ∧ ofBe32 a b c d = n := by
  refine ⟨_, _, _, _, rfl, ?_⟩
  simp only [ofBe32, UInt8.toNat_ofNat']
  omega

/-! ## Parts -/

section Parts

variable {α : Type} [DecidableEq α] {sep : α} {s a a' b b' : List α}

/-- `strings.SplitN(s, sep, 2)`, where it has two parts. -/
def splitN (sep : α) : List α → Option (List α × List α)
  | [] => none
  | c :: s => if c = sep then some ([], s) else (splitN sep s).map fun parts => (c :: parts.1, parts.2)

/-- `s[:i]` and `s[i+1:]` for `i := strings.LastIndex(s, sep)`, where there is one. -/
def splitLast (sep : α) (s : List α) : Option (List α × List α) :=
  (splitN sep s.reverse).map fun parts => (parts.2.reverse, parts.1.reverse)

/-- The first separator. -/
theorem splitN_eq_some : splitN sep s = some (a, b) ↔ sep ∉ a ∧ s = a ++ sep :: b := by
  induction s generalizing a with
  | nil => simp [splitN]
  | cons c s ih =>
    rw [splitN]
    by_cases hc : c = sep
    · subst hc
      rw [if_pos rfl]
      constructor
      · intro h
        obtain ⟨rfl, rfl⟩ := Prod.mk.inj (Option.some.inj h)
        exact ⟨List.not_mem_nil, rfl⟩
      · rintro ⟨hfree, heq⟩
        cases a with
        | nil => rw [(List.cons.inj heq).2]
        | cons d a => exact absurd ((List.cons.inj heq).1 ▸ List.mem_cons_self) hfree
    · rw [if_neg hc, Option.map_eq_some_iff]
      constructor
      · rintro ⟨⟨a', b'⟩, hsplit, heq⟩
        obtain ⟨rfl, rfl⟩ := Prod.mk.inj heq
        obtain ⟨hfree, rfl⟩ := ih.mp hsplit
        refine ⟨fun hmem => ?_, rfl⟩
        rcases List.mem_cons.mp hmem with he | hmem
        · exact hc he.symm
        · exact hfree hmem
      · rintro ⟨hfree, heq⟩
        cases a with
        | nil => exact absurd (List.cons.inj heq).1 hc
        | cons d a =>
          obtain ⟨rfl, rfl⟩ := List.cons.inj heq
          exact ⟨(a, b), ih.mpr ⟨fun hmem => hfree (List.mem_cons_of_mem _ hmem), rfl⟩, rfl⟩

/-- Texts are the same up to their first separator and after it. -/
theorem parts_eq (ha : sep ∉ a) (ha' : sep ∉ a') (h : a ++ sep :: b = a' ++ sep :: b') : a = a' ∧ b = b' := by
  have hsplit : splitN sep (a ++ sep :: b) = some (a, b) := splitN_eq_some.mpr ⟨ha, rfl⟩
  have hsplit' : splitN sep (a ++ sep :: b) = some (a', b') := splitN_eq_some.mpr ⟨ha', h⟩
  exact Prod.mk.inj (Option.some.inj (hsplit.symm.trans hsplit'))

/-- A text that cannot be split at a separator does not hold it. -/
theorem splitN_eq_none (h : splitN sep s = none) : sep ∉ s := by
  intro hmem
  obtain ⟨a, b, rfl, hfree⟩ := List.eq_append_cons_of_mem hmem
  rw [splitN_eq_some.mpr ⟨hfree, rfl⟩] at h
  exact absurd h (by simp)

/-- The last separator. -/
theorem splitLast_eq_some (h : splitLast sep s = some (a, b)) : sep ∉ b ∧ s = a ++ sep :: b := by
  obtain ⟨⟨b', a'⟩, hsplit, heq⟩ := Option.map_eq_some_iff.mp h
  obtain ⟨rfl, rfl⟩ := Prod.mk.inj heq
  obtain ⟨hfree, hrev⟩ := splitN_eq_some.mp hsplit
  refine ⟨by simpa using hfree, ?_⟩
  rw [← List.reverse_reverse s, hrev]
  simp

/-- Nor does one that cannot be split at its last separator. -/
theorem splitLast_eq_none (h : splitLast sep s = none) : sep ∉ s := by
  have hnone : splitN sep s.reverse = none := Option.map_eq_none_iff.mp h
  simpa using splitN_eq_none hnone

end Parts

end Bytes
