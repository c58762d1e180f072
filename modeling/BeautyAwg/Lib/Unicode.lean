import Mathlib.Data.Char
import Mathlib.Tactic.Common

/-!
# `Unicode`: the simple lower-case mapping

`toLower` maps a character to its lower case, as Unicode 15 has it: one character to one. The mapping is a
table of ranges, in which the upper-case letters stand one after another or at every second place. A
character that is mapped to is not mapped again (`toLower_toLower`), and what no range touches, such as
punctuation, is neither mapped nor mapped to (`toLower_eq_iff`).
-/

namespace Unicode

/-- Upper-case letters at every `step`-th place from `first` to `last`, and where the lower-case ones begin. -/
structure CaseRange where
  first : Nat
  last : Nat
  step : Nat
  lower : Nat
  deriving DecidableEq, Repr

namespace CaseRange

/-- The code point is an upper-case letter of the range. -/
def Has (r : CaseRange) (n : Nat) : Prop := r.first ≤ n ∧ n ≤ r.last ∧ (n - r.first) % r.step = 0

instance (r : CaseRange) (n : Nat) : Decidable (r.Has n) := inferInstanceAs (Decidable (_ ∧ _ ∧ _))

/-- The lower-case letter of a code point of the range. -/
def map (r : CaseRange) (n : Nat) : Nat := r.lower + (n - r.first)

/-- The last place that a letter is mapped to. -/
def lowerLast (r : CaseRange) : Nat := r.map r.last

/-- The range maps to characters. -/
def Valid (r : CaseRange) : Prop := r.lowerLast < 0xd800 ∨ 0xdfff < r.lower ∧ r.lowerLast < 0x110000

/-- No letter of `r` is mapped to one of `s`: the places are apart, or stand at every second place out of
    step. -/
def apart (r s : CaseRange) : Bool :=
  Nat.blt r.lowerLast s.first || Nat.blt s.last r.lower ||
    (Nat.beq r.step 2 && Nat.beq s.step 2 && !Nat.beq (r.lower % 2) (s.first % 2))

/-- The range neither maps the place nor maps to it. -/
def Avoids (r : CaseRange) (n : Nat) : Prop := (n < r.first ∨ r.last < n) ∧ (n < r.lower ∨ r.lowerLast < n)

instance (r : CaseRange) : Decidable r.Valid := inferInstanceAs (Decidable (_ ∨ _))
instance (r : CaseRange) (n : Nat) : Decidable (r.Avoids n) := inferInstanceAs (Decidable (_ ∧ _))

variable {r s : CaseRange} {n : Nat}

/-- A character of a range is mapped into the range of its small letters. -/
theorem map_le (h : r.Has n) : r.lower ≤ r.map n ∧ r.map n ≤ r.lowerLast := by
  obtain ⟨hfirst, hlast, -⟩ := h
  unfold lowerLast map
  omega

/-- Of two ranges that lie apart, one has no image of the other. -/
theorem not_has_map (hn : r.Has n) (h : r.apart s = true) : ¬ s.Has (r.map n) := by
  rintro ⟨hfirst, hlast, hstep⟩
  obtain ⟨hlow, hhigh⟩ := map_le hn
  simp only [apart, Bool.or_eq_true, Bool.and_eq_true, Bool.not_eq_true', Nat.blt_eq, Nat.beq_eq, ← Bool.not_eq_true]
    at h
  rcases h with (h | h) | ⟨⟨hr, hs⟩, hparity⟩
  · omega
  · omega
  · have hstep' := hn.2.2
    rw [hr] at hstep'
    rw [hs] at hstep
    unfold map at hfirst hlast hstep
    omega

end CaseRange

/-- Every upper-case letter, with the title-case ones. -/
def caseRanges : List CaseRange :=
  [⟨0x41, 0x5a, 1, 0x61⟩, ⟨0xc0, 0xd6, 1, 0xe0⟩, ⟨0xd8, 0xde, 1, 0xf8⟩, ⟨0x100, 0x12e, 2, 0x101⟩,
   ⟨0x130, 0x130, 2, 0x69⟩, ⟨0x132, 0x136, 2, 0x133⟩, ⟨0x139, 0x147, 2, 0x13a⟩, ⟨0x14a, 0x176, 2, 0x14b⟩,
   ⟨0x178, 0x178, 2, 0xff⟩, ⟨0x179, 0x17d, 2, 0x17a⟩, ⟨0x181, 0x181, 2, 0x253⟩, ⟨0x182, 0x184, 2, 0x183⟩,
   ⟨0x186, 0x186, 2, 0x254⟩, ⟨0x187, 0x187, 2, 0x188⟩, ⟨0x189, 0x18a, 1, 0x256⟩, ⟨0x18b, 0x18b, 2, 0x18c⟩,
   ⟨0x18e, 0x18e, 2, 0x1dd⟩, ⟨0x18f, 0x18f, 2, 0x259⟩, ⟨0x190, 0x190, 2, 0x25b⟩, ⟨0x191, 0x191, 2, 0x192⟩,
   ⟨0x193, 0x193, 2, 0x260⟩, ⟨0x194, 0x194, 2, 0x263⟩, ⟨0x196, 0x196, 2, 0x269⟩, ⟨0x197, 0x197, 2, 0x268⟩,
   ⟨0x198, 0x198, 2, 0x199⟩, ⟨0x19c, 0x19c, 2, 0x26f⟩, ⟨0x19d, 0x19d, 2, 0x272⟩, ⟨0x19f, 0x19f, 2, 0x275⟩,
   ⟨0x1a0, 0x1a4, 2, 0x1a1⟩, ⟨0x1a6, 0x1a6, 2, 0x280⟩, ⟨0x1a7, 0x1a7, 2, 0x1a8⟩, ⟨0x1a9, 0x1a9, 2, 0x283⟩,
   ⟨0x1ac, 0x1ac, 2, 0x1ad⟩, ⟨0x1ae, 0x1ae, 2, 0x288⟩, ⟨0x1af, 0x1af, 2, 0x1b0⟩, ⟨0x1b1, 0x1b2, 1, 0x28a⟩,
   ⟨0x1b3, 0x1b5, 2, 0x1b4⟩, ⟨0x1b7, 0x1b7, 2, 0x292⟩, ⟨0x1b8, 0x1b8, 2, 0x1b9⟩, ⟨0x1bc, 0x1bc, 2, 0x1bd⟩,
   ⟨0x1c4, 0x1c4, 2, 0x1c6⟩, ⟨0x1c5, 0x1c5, 2, 0x1c6⟩, ⟨0x1c7, 0x1c7, 2, 0x1c9⟩, ⟨0x1c8, 0x1c8, 2, 0x1c9⟩,
   ⟨0x1ca, 0x1ca, 2, 0x1cc⟩, ⟨0x1cb, 0x1db, 2, 0x1cc⟩, ⟨0x1de, 0x1ee, 2, 0x1df⟩, ⟨0x1f1, 0x1f1, 2, 0x1f3⟩,
   ⟨0x1f2, 0x1f4, 2, 0x1f3⟩, ⟨0x1f6, 0x1f6, 2, 0x195⟩, ⟨0x1f7, 0x1f7, 2, 0x1bf⟩, ⟨0x1f8, 0x21e, 2, 0x1f9⟩,
   ⟨0x220, 0x220, 2, 0x19e⟩, ⟨0x222, 0x232, 2, 0x223⟩, ⟨0x23a, 0x23a, 2, 0x2c65⟩, ⟨0x23b, 0x23b, 2, 0x23c⟩,
   ⟨0x23d, 0x23d, 2, 0x19a⟩, ⟨0x23e, 0x23e, 2, 0x2c66⟩, ⟨0x241, 0x241, 2, 0x242⟩, ⟨0x243, 0x243, 2, 0x180⟩,
   ⟨0x244, 0x244, 2, 0x289⟩, ⟨0x245, 0x245, 2, 0x28c⟩, ⟨0x246, 0x24e, 2, 0x247⟩, ⟨0x370, 0x372, 2, 0x371⟩,
   ⟨0x376, 0x376, 2, 0x377⟩, ⟨0x37f, 0x37f, 2, 0x3f3⟩, ⟨0x386, 0x386, 2, 0x3ac⟩, ⟨0x388, 0x38a, 1, 0x3ad⟩,
   ⟨0x38c, 0x38c, 2, 0x3cc⟩, ⟨0x38e, 0x38f, 1, 0x3cd⟩, ⟨0x391, 0x3a1, 1, 0x3b1⟩, ⟨0x3a3, 0x3ab, 1, 0x3c3⟩,
   ⟨0x3cf, 0x3cf, 2, 0x3d7⟩, ⟨0x3d8, 0x3ee, 2, 0x3d9⟩, ⟨0x3f4, 0x3f4, 2, 0x3b8⟩, ⟨0x3f7, 0x3f7, 2, 0x3f8⟩,
   ⟨0x3f9, 0x3f9, 2, 0x3f2⟩, ⟨0x3fa, 0x3fa, 2, 0x3fb⟩, ⟨0x3fd, 0x3ff, 1, 0x37b⟩, ⟨0x400, 0x40f, 1, 0x450⟩,
   ⟨0x410, 0x42f, 1, 0x430⟩, ⟨0x460, 0x480, 2, 0x461⟩, ⟨0x48a, 0x4be, 2, 0x48b⟩, ⟨0x4c0, 0x4c0, 2, 0x4cf⟩,
   ⟨0x4c1, 0x4cd, 2, 0x4c2⟩, ⟨0x4d0, 0x52e, 2, 0x4d1⟩, ⟨0x531, 0x556, 1, 0x561⟩, ⟨0x10a0, 0x10c5, 1, 0x2d00⟩,
   ⟨0x10c7, 0x10c7, 2, 0x2d27⟩, ⟨0x10cd, 0x10cd, 2, 0x2d2d⟩, ⟨0x13a0, 0x13ef, 1, 0xab70⟩, ⟨0x13f0, 0x13f5, 1, 0x13f8⟩,
   ⟨0x1c90, 0x1cba, 1, 0x10d0⟩, ⟨0x1cbd, 0x1cbf, 1, 0x10fd⟩, ⟨0x1e00, 0x1e94, 2, 0x1e01⟩, ⟨0x1e9e, 0x1e9e, 2, 0xdf⟩,
   ⟨0x1ea0, 0x1efe, 2, 0x1ea1⟩, ⟨0x1f08, 0x1f0f, 1, 0x1f00⟩, ⟨0x1f18, 0x1f1d, 1, 0x1f10⟩, ⟨0x1f28, 0x1f2f, 1, 0x1f20⟩,
   ⟨0x1f38, 0x1f3f, 1, 0x1f30⟩, ⟨0x1f48, 0x1f4d, 1, 0x1f40⟩, ⟨0x1f59, 0x1f5f, 2, 0x1f51⟩, ⟨0x1f68, 0x1f6f, 1, 0x1f60⟩,
   ⟨0x1f88, 0x1f8f, 1, 0x1f80⟩, ⟨0x1f98, 0x1f9f, 1, 0x1f90⟩, ⟨0x1fa8, 0x1faf, 1, 0x1fa0⟩, ⟨0x1fb8, 0x1fb9, 1, 0x1fb0⟩,
   ⟨0x1fba, 0x1fbb, 1, 0x1f70⟩, ⟨0x1fbc, 0x1fbc, 2, 0x1fb3⟩, ⟨0x1fc8, 0x1fcb, 1, 0x1f72⟩, ⟨0x1fcc, 0x1fcc, 2, 0x1fc3⟩,
   ⟨0x1fd8, 0x1fd9, 1, 0x1fd0⟩, ⟨0x1fda, 0x1fdb, 1, 0x1f76⟩, ⟨0x1fe8, 0x1fe9, 1, 0x1fe0⟩, ⟨0x1fea, 0x1feb, 1, 0x1f7a⟩,
   ⟨0x1fec, 0x1fec, 2, 0x1fe5⟩, ⟨0x1ff8, 0x1ff9, 1, 0x1f78⟩, ⟨0x1ffa, 0x1ffb, 1, 0x1f7c⟩, ⟨0x1ffc, 0x1ffc, 2, 0x1ff3⟩,
   ⟨0x2126, 0x2126, 2, 0x3c9⟩, ⟨0x212a, 0x212a, 2, 0x6b⟩, ⟨0x212b, 0x212b, 2, 0xe5⟩, ⟨0x2132, 0x2132, 2, 0x214e⟩,
   ⟨0x2160, 0x216f, 1, 0x2170⟩, ⟨0x2183, 0x2183, 2, 0x2184⟩, ⟨0x24b6, 0x24cf, 1, 0x24d0⟩, ⟨0x2c00, 0x2c2f, 1, 0x2c30⟩,
   ⟨0x2c60, 0x2c60, 2, 0x2c61⟩, ⟨0x2c62, 0x2c62, 2, 0x26b⟩, ⟨0x2c63, 0x2c63, 2, 0x1d7d⟩, ⟨0x2c64, 0x2c64, 2, 0x27d⟩,
   ⟨0x2c67, 0x2c6b, 2, 0x2c68⟩, ⟨0x2c6d, 0x2c6d, 2, 0x251⟩, ⟨0x2c6e, 0x2c6e, 2, 0x271⟩, ⟨0x2c6f, 0x2c6f, 2, 0x250⟩,
   ⟨0x2c70, 0x2c70, 2, 0x252⟩, ⟨0x2c72, 0x2c72, 2, 0x2c73⟩, ⟨0x2c75, 0x2c75, 2, 0x2c76⟩, ⟨0x2c7e, 0x2c7f, 1, 0x23f⟩,
   ⟨0x2c80, 0x2ce2, 2, 0x2c81⟩, ⟨0x2ceb, 0x2ced, 2, 0x2cec⟩, ⟨0x2cf2, 0x2cf2, 2, 0x2cf3⟩, ⟨0xa640, 0xa66c, 2, 0xa641⟩,
   ⟨0xa680, 0xa69a, 2, 0xa681⟩, ⟨0xa722, 0xa72e, 2, 0xa723⟩, ⟨0xa732, 0xa76e, 2, 0xa733⟩, ⟨0xa779, 0xa77b, 2, 0xa77a⟩,
   ⟨0xa77d, 0xa77d, 2, 0x1d79⟩, ⟨0xa77e, 0xa786, 2, 0xa77f⟩, ⟨0xa78b, 0xa78b, 2, 0xa78c⟩, ⟨0xa78d, 0xa78d, 2, 0x265⟩,
   ⟨0xa790, 0xa792, 2, 0xa791⟩, ⟨0xa796, 0xa7a8, 2, 0xa797⟩, ⟨0xa7aa, 0xa7aa, 2, 0x266⟩, ⟨0xa7ab, 0xa7ab, 2, 0x25c⟩,
   ⟨0xa7ac, 0xa7ac, 2, 0x261⟩, ⟨0xa7ad, 0xa7ad, 2, 0x26c⟩, ⟨0xa7ae, 0xa7ae, 2, 0x26a⟩, ⟨0xa7b0, 0xa7b0, 2, 0x29e⟩,
   ⟨0xa7b1, 0xa7b1, 2, 0x287⟩, ⟨0xa7b2, 0xa7b2, 2, 0x29d⟩, ⟨0xa7b3, 0xa7b3, 2, 0xab53⟩, ⟨0xa7b4, 0xa7c2, 2, 0xa7b5⟩,
   ⟨0xa7c4, 0xa7c4, 2, 0xa794⟩, ⟨0xa7c5, 0xa7c5, 2, 0x282⟩, ⟨0xa7c6, 0xa7c6, 2, 0x1d8e⟩, ⟨0xa7c7, 0xa7c9, 2, 0xa7c8⟩,
   ⟨0xa7d0, 0xa7d0, 2, 0xa7d1⟩, ⟨0xa7d6, 0xa7d8, 2, 0xa7d7⟩, ⟨0xa7f5, 0xa7f5, 2, 0xa7f6⟩, ⟨0xff21, 0xff3a, 1, 0xff41⟩,
   ⟨0x10400, 0x10427, 1, 0x10428⟩, ⟨0x104b0, 0x104d3, 1, 0x104d8⟩, ⟨0x10570, 0x1057a, 1, 0x10597⟩,
   ⟨0x1057c, 0x1058a, 1, 0x105a3⟩, ⟨0x1058c, 0x10592, 1, 0x105b3⟩, ⟨0x10594, 0x10595, 1, 0x105bb⟩,
   ⟨0x10c80, 0x10cb2, 1, 0x10cc0⟩, ⟨0x118a0, 0x118bf, 1, 0x118c0⟩, ⟨0x16e40, 0x16e5f, 1, 0x16e60⟩,
   ⟨0x1e900, 0x1e921, 1, 0x1e922⟩]

/-- `unicode.ToLower`. -/
def toLower (c : Char) : Char :=
  match caseRanges.find? fun r => r.Has c.toNat with
  | some r => Char.ofNat (r.map c.toNat)
  | none => c

theorem caseRanges_valid : ∀ r ∈ caseRanges, r.Valid := by decide +kernel

/-- No range of the table has an image of another one's letters. -/
theorem caseRanges_apart : (caseRanges.all fun r => caseRanges.all r.apart) = true := by decide +kernel

/-- A character is the lower case of a letter in some range, or itself. -/
theorem toLower_cases (c : Char) :
    (∃ r ∈ caseRanges, r.Has c.toNat ∧ (toLower c).toNat = r.map c.toNat) ∨
      (∀ r ∈ caseRanges, ¬ r.Has c.toNat) ∧ toLower c = c := by
  unfold toLower
  cases hfind : caseRanges.find? fun r => r.Has c.toNat with
  | none =>
    refine .inr ⟨fun r hr hc => ?_, rfl⟩
    exact absurd (decide_eq_true hc) (List.find?_eq_none.mp hfind r hr)
  | some r =>
    have hr := List.mem_of_find?_eq_some hfind
    have hfound := List.find?_some hfind
    have hc : r.Has c.toNat := of_decide_eq_true hfound
    refine .inl ⟨r, hr, hc, ?_⟩
    have hle := CaseRange.map_le hc
    have hvalid : Nat.isValidChar (r.map c.toNat) := by
      rcases caseRanges_valid r hr with h | ⟨h, h'⟩
      · exact .inl (by omega)
      · exact .inr ⟨by omega, by omega⟩
    show (Char.ofNat _).toNat = _
    rw [Char.ofNat, dif_pos hvalid]
    rfl

/-- A character outside all ranges is its own small letter. -/
theorem toLower_of_not_has {c : Char} (h : ∀ r ∈ caseRanges, ¬ r.Has c.toNat) : toLower c = c := by
  rcases toLower_cases c with ⟨r, hr, hc, -⟩ | ⟨-, hsame⟩
  · exact absurd hc (h r hr)
  · exact hsame

/-- **Lower case stays as it is.** -/
theorem toLower_toLower (c : Char) : toLower (toLower c) = toLower c := by
  rcases toLower_cases c with ⟨r, hr, hc, hmap⟩ | ⟨-, hsame⟩
  · refine toLower_of_not_has fun s hs hhas => ?_
    rw [hmap] at hhas
    have hapart := List.all_eq_true.mp (List.all_eq_true.mp caseRanges_apart r hr) s hs
    exact CaseRange.not_has_map hc hapart hhas
  · rw [hsame, hsame]

/-- What no range touches is the lower case of itself alone. -/
theorem toLower_eq_iff {n : Nat} (h : ∀ r ∈ caseRanges, r.Avoids n) (c : Char) :
    (toLower c).toNat = n ↔ c.toNat = n := by
  rcases toLower_cases c with ⟨r, hr, hc, hmap⟩ | ⟨-, hsame⟩
  · obtain ⟨hdomain, himage⟩ := h r hr
    have hle := CaseRange.map_le hc
    rw [hmap]
    unfold CaseRange.Has at hc
    omega
  · rw [hsame]

/-- The capitals of ASCII go to its small letters. -/
theorem toLower_upper : ∀ i < 26, toLower (Char.ofNat (65 + i)) = Char.ofNat (97 + i) := by decide +kernel

/-- The case of ASCII letters does not matter. -/
theorem toLower_ascii (c : Char) : toLower c.toLower = toLower c := by
  by_cases hupper : 65 ≤ c.toNat ∧ c.toNat ≤ 90
  · obtain ⟨i, hi, hc⟩ : ∃ i < 26, c.toNat = 65 + i := ⟨c.toNat - 65, by omega, by omega⟩
    have hletter : c = Char.ofNat (65 + i) := by rw [← hc, Char.ofNat_toNat]
    have hlower : ∀ i < 26, (Char.ofNat (65 + i)).toLower = Char.ofNat (97 + i) := by decide
    rw [hletter, hlower i hi, ← toLower_upper i hi, toLower_toLower]
  · have hsame : c.toLower = c := by
      unfold Char.toLower
      refine dif_neg fun ⟨hge, hle⟩ => hupper ⟨?_, ?_⟩
      · exact UInt32.le_iff_toNat_le.mp hge
      · exact UInt32.le_iff_toNat_le.mp hle
    rw [hsame]

/-- `strings.ToLower`. -/
def lowerString (s : String) : String := String.ofList (s.toList.map toLower)

end Unicode
