import BeautyAwg.Lib.Netip

/-!
# `NetipText`: what is printed is read back

`ParsePrefix` reads every valid prefix that `String` prints back as the same value, in either family. The
proof follows the printer: a digit, a field, a dotted or colon-separated address, a prefix.

## Contents
- **Digits.** `parseDecimal_toDigits`, `parseGroup_toDigits`.
- **Dotted.** `parseAddr4_text4`.
- **Groups.** `joinGroups`, `parseGroups_join`, `foldl_groups`.
- **Compression.** `splitEllipsis_append`, `longestZeros_spec`, `parseAddr6_text6`.
- **Prefixes.** `parseAddr_text`, `parsePrefix_text`.
- **Coverage.** `coveredBy`: the addresses that a list of printed prefixes covers.
-/

namespace Netip

/-! ## Digits -/

/-- A character of a number's text is one of its digits. -/
theorem exists_digit_of_mem {b n : Nat} (hb : 1 < b) {c : Char} (h : c ∈ Nat.toDigits b n) :
    ∃ d < b, c = d.digitChar := by
  induction n using Nat.base_induction b hb with
  | single m hm =>
    rw [Nat.toDigits_of_lt_base hm, List.mem_singleton] at h
    exact ⟨m, hm, h⟩
  | digit m k hk hm ih =>
    rw [← Nat.toDigits_append_toDigits hb hm hk, Nat.toDigits_of_lt_base hk] at h
    rcases List.mem_append.mp h with h | h
    · exact ih h
    · exact ⟨k, hk, List.mem_singleton.mp h⟩

/-- The first digit of a positive number is not zero. -/
theorem toDigits_head {n : Nat} (h : (Nat.toDigits 10 n).head? = some '0') : n = 0 := by
  induction n using Nat.base_induction 10 (by omega) with
  | single m hm =>
    rw [Nat.toDigits_of_lt_base hm, List.head?_cons, Option.some.injEq] at h
    exact Nat.digitChar_eq_zero.mp h
  | digit m k hk hm ih =>
    obtain ⟨c, cs, hc⟩ := List.exists_cons_of_ne_nil (Nat.toDigits_ne_nil (n := m) (b := 10))
    rw [← Nat.toDigits_append_toDigits (by omega) hm hk, hc] at h
    exact absurd (ih (by rw [hc]; exact h)) (by omega)

/-- A number in range is read back from its decimal digits. -/
theorem parseDecimal_toDigits {max n : Nat} (h : n ≤ max) : parseDecimal max (Nat.toDigits 10 n) = some n := by
  have hdigits : (Nat.toDigits 10 n).all Char.isDigit = true :=
    List.all_eq_true.mpr fun c hc => Nat.isDigit_of_mem_toDigits (by omega) (by omega) hc
  have hzero : ¬ (1 < (Nat.toDigits 10 n).length ∧ (Nat.toDigits 10 n).head? = some '0') := by
    rintro ⟨hlen, hhead⟩
    rw [toDigits_head hhead] at hlen
    exact absurd hlen (by simp)
  unfold parseDecimal
  rw [if_neg (by simp [hdigits, hzero]), Nat.ofDigitChars_ten_toDigits, if_pos h]

theorem hexDigit_digitChar : ∀ d < 16, hexDigit d.digitChar = some d := by decide

/-- The hexadecimal digits of a number are read one at a time. -/
theorem mapM_hexDigit (n : Nat) :
    ∃ ds, (Nat.toDigits 16 n).mapM hexDigit = some ds ∧ ds.foldl (fun n d => n * 16 + d) 0 = n := by
  induction n using Nat.base_induction 16 (by omega) with
  | single m hm =>
    refine ⟨[m], ?_, by simp⟩
    rw [Nat.toDigits_of_lt_base hm, List.mapM_cons, hexDigit_digitChar m hm]
    rfl
  | digit m k hk hm ih =>
    obtain ⟨ds, hds, hfold⟩ := ih
    refine ⟨ds ++ [k], ?_, by simp [hfold, Nat.mul_comm]⟩
    rw [← Nat.toDigits_append_toDigits (by omega) hm hk, Nat.toDigits_of_lt_base hk, List.mapM_append, hds,
      List.mapM_cons, hexDigit_digitChar k hk]
    rfl

/-- A group of an IPv6 address is read back from its hexadecimal digits. -/
theorem parseGroup_toDigits {n : Nat} (h : n < 65536) : parseGroup (Nat.toDigits 16 n) = some n := by
  have hlen : (Nat.toDigits 16 n).length ≤ 4 := (Nat.length_toDigits_le_iff (by omega) (by omega)).mpr h
  obtain ⟨ds, hds, hfold⟩ := mapM_hexDigit n
  unfold parseGroup
  rw [if_neg (by simp only [Nat.toDigits_ne_nil, false_or]; omega), hds, Option.map_some, hfold]

/-- No separator is a digit. -/
theorem not_mem_toDigits {b n : Nat} (hb : 1 < b) (hb' : b ≤ 16) {c : Char} (hc : ∀ d < 16, c ≠ d.digitChar) :
    c ∉ Nat.toDigits b n := by
  intro h
  obtain ⟨d, hd, he⟩ := exists_digit_of_mem hb h
  exact hc d (by omega) he

theorem colon_not_digit : ∀ d < 16, ':' ≠ Nat.digitChar d := by decide
theorem dot_not_digit : ∀ d < 16, '.' ≠ Nat.digitChar d := by decide
theorem slash_not_digit : ∀ d < 16, '/' ≠ Nat.digitChar d := by decide
theorem percent_not_digit : ∀ d < 16, '%' ≠ Nat.digitChar d := by decide

/-! ## Dotted -/

theorem byte_lt (a : BitVec 32) (i : Nat) : Addr.byte a i < 256 := Nat.mod_lt _ (by omega)

/-- An IPv4 address is printed as its four bytes between dots. -/
theorem toList_text4 (a : BitVec 32) : (Addr.text4 a).toList =
    ['.'].intercalate ([0, 1, 2, 3].map fun i => Nat.toDigits 10 (Addr.byte a i)) := by
  have hdot : (toString ".").toList = ['.'] := rfl
  simp [Addr.text4, Nat.toList_repr, hdot]

/-- An IPv4 address is read back from its text. -/
theorem parseAddr4_text4 (a : BitVec 32) : parseAddr4 (Addr.text4 a).toList = some a := by
  have hsplit : (Addr.text4 a).toList.splitOn '.' =
      [0, 1, 2, 3].map fun i => Nat.toDigits 10 (Addr.byte a i) := by
    rw [toList_text4]
    refine List.splitOn_intercalate _ (fun l hl => ?_) (by simp)
    obtain ⟨i, -, rfl⟩ := List.mem_map.mp hl
    exact not_mem_toDigits (by omega) (by omega) dot_not_digit
  have hbyte : ∀ i, parseDecimal 255 (Nat.toDigits 10 (Addr.byte a i)) = some (Addr.byte a i) := fun i =>
    parseDecimal_toDigits (Nat.le_of_lt_succ (byte_lt a i))
  unfold parseAddr4
  rw [hsplit]
  simp only [List.map_cons, List.map_nil, List.mapM_cons, List.mapM_nil, hbyte]
  have hvalue : ((Addr.byte a 0 * 256 + Addr.byte a 1) * 256 + Addr.byte a 2) * 256 + Addr.byte a 3 = a.toNat := by
    have := a.isLt
    simp only [Addr.byte]
    omega
  simp [hvalue]

/-! ## Groups -/

/-- The groups of an address, colon-separated. -/
def joinGroups (gs : List Nat) : List Char := [':'].intercalate (gs.map (Nat.toDigits 16))

theorem toList_join_hex (gs : List Nat) : (":".intercalate (gs.map Addr.hex)).toList = joinGroups gs := by
  simp [joinGroups, Addr.hex, List.map_map, Function.comp_def]

/-- The first group stands before its colon and the others. -/
theorem joinGroups_cons {g : Nat} {gs : List Nat} (h : gs ≠ []) :
    joinGroups (g :: gs) = Nat.toDigits 16 g ++ ':' :: joinGroups gs := by
  rw [joinGroups, List.map_cons, List.intercalate_cons_of_ne_nil (by simpa using h)]
  simp [joinGroups]

theorem joinGroups_ne_nil {gs : List Nat} (h : gs ≠ []) : joinGroups gs ≠ [] := by
  cases gs with
  | nil => exact absurd rfl h
  | cons g gs =>
    by_cases hgs : gs = []
    · subst hgs
      simp [joinGroups]
    · rw [joinGroups_cons hgs]
      simp

/-- Only digits and colons are printed. -/
theorem mem_joinGroups {gs : List Nat} {c : Char} (h : c ∈ joinGroups gs) :
    c = ':' ∨ ∃ d < 16, c = Nat.digitChar d := by
  induction gs with
  | nil => exact absurd h (by simp [joinGroups])
  | cons g gs ih =>
    by_cases hgs : gs = []
    · subst hgs
      exact Or.inr (exists_digit_of_mem (by omega) (by simpa [joinGroups] using h))
    · rw [joinGroups_cons hgs] at h
      rcases List.mem_append.mp h with h | h
      · exact Or.inr (exists_digit_of_mem (by omega) h)
      · rcases List.mem_cons.mp h with rfl | h
        · exact Or.inl rfl
        · exact ih h

/-- Groups in range are read back one by one. -/
theorem mapM_parseGroup {gs : List Nat} (h : ∀ g ∈ gs, g < 65536) :
    (gs.map (Nat.toDigits 16)).mapM parseGroup = some gs := by
  induction gs with
  | nil => rfl
  | cons g gs ih =>
    rw [List.map_cons, List.mapM_cons, parseGroup_toDigits (h g List.mem_cons_self),
      ih fun x hx => h x (List.mem_cons_of_mem _ hx)]
    rfl

/-- Splitting at the colons gives the groups' texts. -/
theorem splitOn_joinGroups {gs : List Nat} (h : gs ≠ []) :
    (joinGroups gs).splitOn ':' = gs.map (Nat.toDigits 16) := by
  refine List.splitOn_intercalate _ (fun l hl => ?_) (by simpa using h)
  obtain ⟨g, -, rfl⟩ := List.mem_map.mp hl
  exact not_mem_toDigits (by omega) (by omega) colon_not_digit

/-- Printed groups are read back; the last one has no dot. -/
theorem parseGroups_join {last : Bool} {gs : List Nat} (h : ∀ g ∈ gs, g < 65536) :
    parseGroups last (joinGroups gs) = some gs := by
  by_cases hgs : gs = []
  · subst hgs
    rfl
  · unfold parseGroups
    rw [if_neg (joinGroups_ne_nil hgs)]
    simp only [splitOn_joinGroups hgs]
    have hdot : '.' ∉ Nat.toDigits 16 (gs.getLast hgs) :=
      not_mem_toDigits (by omega) (by omega) dot_not_digit
    simp [List.getLast?_map, List.getLast?_eq_some_getLast hgs, hdot, mapM_parseGroup h]

/-- Each of the eight groups fits in sixteen bits. -/
theorem groups_lt (a : BitVec 128) : ∀ g ∈ Addr.groups a, g < 65536 := by
  intro g hg
  obtain ⟨i, -, rfl⟩ := List.mem_map.mp hg
  exact Nat.mod_lt _ (by omega)

theorem length_groups (a : BitVec 128) : (Addr.groups a).length = 8 := by simp [Addr.groups]

/-- A number's lowest digits in base `b`, the highest of them first, give it back up to their number. -/
theorem foldl_digits (b n k : Nat) :
    ((List.range k).map fun i => n / b ^ (k - 1 - i) % b).foldl (fun m g => m * b + g) 0 = n % b ^ k := by
  induction k generalizing n with
  | zero => simp [Nat.mod_one]
  | succ k ih =>
    have hhigh : (List.range k).map (fun i => n / b ^ (k + 1 - 1 - i) % b) =
        (List.range k).map fun i => n / b / b ^ (k - 1 - i) % b := by
      refine List.map_congr_left fun i hi => ?_
      have hexp : k + 1 - 1 - i = (k - 1 - i) + 1 := by
        have := List.mem_range.mp hi
        omega
      rw [hexp, Nat.pow_succ', Nat.div_div_eq_div_mul]
    rw [List.range_succ, List.map_append, List.foldl_append, hhigh, ih]
    simp only [List.map_cons, List.map_nil, List.foldl_cons, List.foldl_nil, Nat.add_sub_cancel, Nat.sub_self,
      Nat.pow_zero, Nat.div_one]
    rw [Nat.pow_succ', Nat.mod_mul, Nat.mul_comm, Nat.add_comm]

/-- The groups are the digits of the address in base 65536. -/
theorem foldl_groups (a : BitVec 128) : (Addr.groups a).foldl (fun n g => n * 65536 + g) 0 = a.toNat := by
  have hdigits := foldl_digits 65536 a.toNat 8
  exact hdigits.trans (Nat.mod_eq_of_lt a.isLt)

/-! ## Compression -/

/-- No colon is followed by a colon or the end. -/
def Separated : List Char → Prop
  | [] => True
  | c :: cs => (c = ':' → ∃ c' cs', cs = c' :: cs' ∧ c' ≠ ':') ∧ Separated cs

theorem separated_append {xs ys : List Char} (hx : ':' ∉ xs) (hy : Separated ys) : Separated (xs ++ ys) := by
  induction xs with
  | nil => exact hy
  | cons c xs ih =>
    rw [List.mem_cons, not_or] at hx
    exact ⟨fun he => absurd he.symm hx.1, ih hx.2⟩

theorem separated_join (gs : List Nat) : Separated (joinGroups gs) := by
  have hdigits : ∀ g, ':' ∉ Nat.toDigits 16 g := fun g =>
    not_mem_toDigits (by omega) (by omega) colon_not_digit
  induction gs with
  | nil => trivial
  | cons g gs ih =>
    by_cases hgs : gs = []
    · subst hgs
      have hlast : Separated (Nat.toDigits 16 g ++ []) := separated_append (hdigits g) trivial
      simpa [joinGroups] using hlast
    · rw [joinGroups_cons hgs]
      refine separated_append (hdigits g) ⟨fun _ => ?_, ih⟩
      -- the next group starts with a digit
      obtain ⟨g', gs, rfl⟩ := List.exists_cons_of_ne_nil hgs
      obtain ⟨c, cs, hc⟩ := List.exists_cons_of_ne_nil (Nat.toDigits_ne_nil (n := g') (b := 16))
      have hne : c ≠ ':' := fun he => hdigits g' (by rw [hc, he]; exact List.mem_cons_self)
      by_cases hgs' : gs = []
      · subst hgs'
        exact ⟨c, cs, by simpa [joinGroups] using hc, hne⟩
      · exact ⟨c, cs ++ ':' :: joinGroups gs, by rw [joinGroups_cons hgs', hc]; rfl, hne⟩

/-- A character that does not open an ellipsis is passed over. -/
theorem splitEllipsis_cons {c : Char} {cs : List Char} (h : ¬ (c = ':' ∧ cs.head? = some ':')) :
    splitEllipsis (c :: cs) = (splitEllipsis cs).map fun (l, r) => (c :: l, r) := by
  rw [splitEllipsis]
  rintro cs' rfl rfl
  exact h ⟨rfl, rfl⟩

/-- The split is at the first `::`. -/
theorem splitEllipsis_append {l r : List Char} (h : Separated l) :
    splitEllipsis (l ++ ':' :: ':' :: r) = some (l, r) := by
  induction l with
  | nil => rfl
  | cons c l ih =>
    obtain ⟨hc, hl⟩ := h
    rw [List.cons_append, splitEllipsis_cons, ih hl]
    · rfl
    · rintro ⟨rfl, hhead⟩
      obtain ⟨c', cs', rfl, hne⟩ := hc rfl
      exact hne (Option.some.inj hhead)

/-- A text without two colons in a row has no ellipsis. -/
theorem splitEllipsis_none {l : List Char} (h : Separated l) : splitEllipsis l = none := by
  induction l with
  | nil => rfl
  | cons c l ih =>
    obtain ⟨hc, hl⟩ := h
    rw [splitEllipsis_cons, ih hl]
    · rfl
    · rintro ⟨rfl, hhead⟩
      obtain ⟨c', cs', rfl, hne⟩ := hc rfl
      exact hne (Option.some.inj hhead)

/-- A run of zero groups is that many zeros. -/
theorem take_zeroRun (gs : List Nat) :
    gs.take (Addr.zeroRun gs) = List.replicate (Addr.zeroRun gs) 0 ∧ Addr.zeroRun gs ≤ gs.length := by
  induction gs with
  | nil => exact ⟨rfl, Nat.le_refl _⟩
  | cons g gs ih =>
    cases g with
    | zero =>
      show (0 :: gs).take (Addr.zeroRun gs + 1) = _ ∧ Addr.zeroRun gs + 1 ≤ _
      rw [List.take_succ_cons, ih.1]
      exact ⟨rfl, Nat.succ_le_succ ih.2⟩
    | succ n => exact ⟨rfl, Nat.zero_le _⟩

/-- What is compressed are at least two zeros. -/
theorem longestZeros_spec {gs : List Nat} (hlen : gs.length = 8) (h : (Addr.longestZeros gs).2 ≠ 0) :
    2 ≤ (Addr.longestZeros gs).2 ∧
      gs = gs.take (Addr.longestZeros gs).1 ++ List.replicate (Addr.longestZeros gs).2 0 ++
        gs.drop ((Addr.longestZeros gs).1 + (Addr.longestZeros gs).2) ∧
      (Addr.longestZeros gs).1 + (Addr.longestZeros gs).2 ≤ 8 := by
  have hinv : (Addr.longestZeros gs).2 = 0 ∨ 2 ≤ (Addr.longestZeros gs).2 ∧
      (Addr.longestZeros gs).1 < 8 ∧ (Addr.longestZeros gs).2 = Addr.zeroRun (gs.drop (Addr.longestZeros gs).1) := by
    unfold Addr.longestZeros
    refine List.foldlRecOn (motive := fun best : Nat × Nat => best.2 = 0 ∨ 2 ≤ best.2 ∧ best.1 < 8 ∧
      best.2 = Addr.zeroRun (gs.drop best.1)) _ _ (Or.inl rfl) fun best hbest i hi => ?_
    dsimp only
    split
    · rename_i hbetter
      exact Or.inr ⟨hbetter.1, List.mem_range.mp hi, rfl⟩
    · exact hbest
  obtain ⟨htwo, hstart, hrun⟩ := hinv.resolve_left h
  generalize (Addr.longestZeros gs).1 = i at *
  generalize (Addr.longestZeros gs).2 = n at *
  obtain ⟨htake, hle⟩ := take_zeroRun (gs.drop i)
  rw [← hrun] at htake hle
  refine ⟨htwo, ?_, by simp at hle; omega⟩
  rw [← htake, List.append_assoc, ← List.drop_drop, List.take_append_drop, List.take_append_drop]

theorem dot_mem_text4 (a : BitVec 32) : '.' ∈ (Addr.text4 a).toList := by
  rw [toList_text4]
  simp

/-- An IPv4 address is printed in digits and dots alone. -/
theorem not_mem_text4 {a : BitVec 32} {c : Char} (hc : ∀ d < 16, c ≠ d.digitChar) (hdot : c ≠ '.') :
    c ∉ (Addr.text4 a).toList := by
  have hdigits : ∀ i, c ∉ Nat.toDigits 10 (Addr.byte a i) := fun i => not_mem_toDigits (by omega) (by omega) hc
  rw [toList_text4]
  simp [hdigits, hdot]

/-- The last two groups may be dotted. -/
theorem parseGroups_mapped (a : BitVec 32) :
    parseGroups true ('f' :: 'f' :: 'f' :: 'f' :: ':' :: (Addr.text4 a).toList) =
      some [65535, a.toNat / 65536, a.toNat % 65536] := by
  have hsplit : ('f' :: 'f' :: 'f' :: 'f' :: ':' :: (Addr.text4 a).toList).splitOn ':' =
      [['f', 'f', 'f', 'f'], (Addr.text4 a).toList] := by
    have hparts : ∀ l ∈ [['f', 'f', 'f', 'f'], (Addr.text4 a).toList], ':' ∉ l := by
      intro l hl
      rcases List.mem_cons.mp hl with rfl | hl
      · decide
      · rw [List.mem_singleton.mp hl]
        exact not_mem_text4 colon_not_digit (by decide)
    have h := List.splitOn_intercalate ':' hparts (by simp)
    simpa using h
  have hffff : parseGroup ['f', 'f', 'f', 'f'] = some 65535 := by decide
  unfold parseGroups
  rw [if_neg (by simp), hsplit]
  simp [dot_mem_text4, parseAddr4_text4, hffff]

/-- **IPv6 round trip.** -/
theorem parseAddr6_text6 (a : BitVec 128) : parseAddr6 (Addr.text6 a).toList = some a := by
  have hvalue : BitVec.ofNat 128 ((Addr.groups a).foldl (fun n g => n * 65536 + g) 0) = a := by
    rw [foldl_groups, BitVec.ofNat_toNat, BitVec.setWidth_eq]
  have hlt := groups_lt a
  unfold Addr.text6
  split
  · rename_i hmapped
    -- 4-in-6: the rest is dotted
    have hchars : ("::ffff:" ++ Addr.text4 (a.truncate 32)).toList =
        [] ++ ':' :: ':' :: 'f' :: 'f' :: 'f' :: 'f' :: ':' :: (Addr.text4 (a.truncate 32)).toList := by
      simp
    rw [hchars]
    unfold parseAddr6
    rw [splitEllipsis_append (l := []) trivial]
    have hempty : parseGroups false [] = some [] := rfl
    simp only [hempty, parseGroups_mapped, Option.bind_eq_bind, Option.bind_some]
    have hlow : (a.truncate 32).toNat = a.toNat % 2 ^ 32 := by simp
    refine congrArg some (BitVec.eq_of_toNat_eq ?_)
    have := a.isLt
    simp [hlow]
    omega
  · dsimp only
    split
    · -- nothing is compressed
      rw [toList_join_hex]
      unfold parseAddr6
      have hne : Addr.groups a ≠ [] := fun h => by simpa [h] using length_groups a
      rw [splitEllipsis_none (separated_join _)]
      simp [joinGroups_ne_nil hne, parseGroups_join hlt, length_groups, hvalue]
    · rename_i hz
      obtain ⟨htwo, hsplit, hend⟩ := longestZeros_spec (length_groups a) hz
      generalize Addr.longestZeros (Addr.groups a) = z at *
      have hchars : (":".intercalate (((Addr.groups a).take z.1).map Addr.hex) ++ "::" ++
          ":".intercalate (((Addr.groups a).drop (z.1 + z.2)).map Addr.hex)).toList =
          joinGroups ((Addr.groups a).take z.1) ++ ':' :: ':' :: joinGroups ((Addr.groups a).drop (z.1 + z.2)) := by
        rw [String.toList_append, String.toList_append, toList_join_hex, toList_join_hex]
        simp
      rw [hchars]
      unfold parseAddr6
      rw [splitEllipsis_append (separated_join _)]
      have hl : ((Addr.groups a).take z.1).length = z.1 := by
        rw [List.length_take, length_groups]
        omega
      have hr : ((Addr.groups a).drop (z.1 + z.2)).length = 8 - (z.1 + z.2) := by
        rw [List.length_drop, length_groups]
      have hzeros : 8 - z.1 - (8 - (z.1 + z.2)) = z.2 := by omega
      have hroom : z.1 + (8 - (z.1 + z.2)) < 8 := by omega
      simp only [parseGroups_join fun g hg => hlt g (List.mem_of_mem_take hg),
        parseGroups_join fun g hg => hlt g (List.mem_of_mem_drop hg), Option.bind_eq_bind, Option.bind_some, hl, hr,
        hzeros, hroom, if_true]
      rw [← hsplit, hvalue]

/-! ## Prefixes -/

theorem find?_of_only {p : Char → Bool} {cs : List Char} {c : Char} (hmem : c ∈ cs) (hp : p c = true)
    (honly : ∀ x ∈ cs, p x = true → x = c) : cs.find? p = some c := by
  cases h : cs.find? p with
  | none => exact absurd hp (by simpa using List.find?_eq_none.mp h c hmem)
  | some x => rw [honly x (List.mem_of_find?_eq_some h) (List.find?_some h)]

/-- `ParseAddr` takes the dotted text to the IPv4 reader, since its first mark is a dot. -/
theorem parseAddr_text4 (a : BitVec 32) : parseAddr (Addr.text4 a).toList = some (.v4 a) := by
  have hfind : ((Addr.text4 a).toList.find? fun c => c == '.' || c == ':' || c == '%') = some '.' := by
    refine find?_of_only (dot_mem_text4 a) rfl fun x hx hp => ?_
    simp only [Bool.or_eq_true, beq_iff_eq] at hp
    rcases hp with (rfl | rfl) | rfl
    · rfl
    · exact absurd hx (not_mem_text4 colon_not_digit (by decide))
    · exact absurd hx (not_mem_text4 percent_not_digit (by decide))
  unfold parseAddr
  rw [hfind]
  simp [parseAddr4_text4]

/-- The first mark in an IPv6 address is a colon. -/
theorem find_text6 (a : BitVec 128) :
    ((Addr.text6 a).toList.find? fun c => c == '.' || c == ':' || c == '%') = some ':' := by
  have honly : ∀ gs, ∀ x ∈ joinGroups gs, (x == '.' || x == ':' || x == '%') = true → x = ':' := by
    intro gs x hx hp
    rcases mem_joinGroups hx with rfl | ⟨d, hd, rfl⟩
    · rfl
    · simp only [Bool.or_eq_true, beq_iff_eq] at hp
      rcases hp with (he | he) | he
      · exact absurd he.symm (dot_not_digit d hd)
      · exact absurd he.symm (colon_not_digit d hd)
      · exact absurd he.symm (percent_not_digit d hd)
  unfold Addr.text6
  split
  · rw [String.toList_append]
    rfl
  · dsimp only
    split
    · rw [toList_join_hex]
      refine find?_of_only ?_ rfl (honly _)
      -- eight groups have a colon between them
      obtain ⟨g, gs, hgs⟩ := List.exists_cons_of_ne_nil
        (fun h => by simpa [h] using length_groups a : Addr.groups a ≠ [])
      have hne : gs ≠ [] := fun h => by simpa [hgs, h] using length_groups a
      rw [hgs, joinGroups_cons hne]
      simp
    · rw [String.toList_append, String.toList_append, toList_join_hex, toList_join_hex]
      refine find?_of_only (by simp) rfl fun x hx hp => ?_
      rcases List.mem_append.mp hx with hx | hx
      · rcases List.mem_append.mp hx with hx | hx
        · exact honly _ x hx hp
        · simpa using hx
      · exact honly _ x hx hp

/-- **Address round trip.** -/
theorem parseAddr_text {a : Addr} (h : a.isValid = true) : parseAddr a.text.toList = some a := by
  cases a with
  | invalid => exact absurd h (by simp [Addr.isValid])
  | v4 a => exact parseAddr_text4 a
  | v6 a =>
    show parseAddr (Addr.text6 a).toList = _
    unfold parseAddr
    rw [find_text6]
    simp [parseAddr6_text6]

/-- A character that is neither a digit nor a separator is in no address. -/
theorem not_mem_text {c : Char} (hc : ∀ d < 16, c ≠ d.digitChar) (hdot : c ≠ '.') (hcolon : c ≠ ':')
    (hword : c ∉ "invalid IP".toList) (a : Addr) : c ∉ a.text.toList := by
  have hgroups : ∀ gs, c ∉ joinGroups gs := by
    intro gs h
    rcases mem_joinGroups h with rfl | ⟨d, hd, rfl⟩
    · exact hcolon rfl
    · exact hc d hd rfl
  cases a with
  | invalid => exact hword
  | v4 a => exact not_mem_text4 hc hdot
  | v6 a =>
    show c ∉ (Addr.text6 a).toList
    have hffff : c ≠ 'f' := hc 15 (by omega)
    unfold Addr.text6
    split
    · rw [String.toList_append, List.mem_append, not_or]
      exact ⟨by simp [hcolon, hffff], not_mem_text4 hc hdot⟩
    · dsimp only
      split
      · rw [toList_join_hex]
        exact hgroups _
      · rw [String.toList_append, String.toList_append, toList_join_hex, toList_join_hex]
        simp [hgroups, hcolon]

/-- A printed prefix holds nothing but digits, dots, colons, a slash and the words for invalid values. -/
theorem not_mem_prefix_text {c : Char} (hc : ∀ d < 16, c ≠ d.digitChar) (hdot : c ≠ '.') (hcolon : c ≠ ':')
    (hslash : c ≠ '/') (hword : c ∉ "invalid IP".toList) (hword' : c ∉ "invalid Prefix".toList) (p : Prefix) :
    c ∉ p.text.toList := by
  have hbits : c ∉ Nat.toDigits 10 p.bits := not_mem_toDigits (by omega) (by omega) hc
  unfold Prefix.text
  split
  · simp [Nat.toList_repr, not_mem_text hc hdot hcolon hword, hslash, hbits]
  · exact hword'

/-- **Prefix round trip.** -/
theorem parsePrefix_text {p : Prefix} (h : p.isValid = true) : parsePrefix p.text = some p := by
  obtain ⟨a, bits⟩ := p
  have hv : a.isValid = true ∧ bits ≤ a.bitLen := by simpa [Prefix.isValid] using h
  have hchars : (Prefix.text ⟨a, bits⟩).toList = a.text.toList ++ '/' :: Nat.toDigits 10 bits := by
    rw [Prefix.text, if_pos h]
    simp [Nat.toList_repr]
  have hslash : '/' ∉ Nat.toDigits 10 bits := not_mem_toDigits (by omega) (by omega) slash_not_digit
  -- the length stands after the last slash
  have hbits : ((a.text.toList ++ '/' :: Nat.toDigits 10 bits).reverse.takeWhile (· ≠ '/')).reverse =
      Nat.toDigits 10 bits := by
    rw [List.reverse_append, List.reverse_cons, List.append_assoc, List.takeWhile_append_of_pos]
    · simp
    · intro c hc
      rw [List.mem_reverse] at hc
      exact decide_eq_true fun he => hslash (he ▸ hc)
  have hlen : (a.text.toList ++ '/' :: Nat.toDigits 10 bits).length - (Nat.toDigits 10 bits).length - 1 =
      a.text.toList.length := by
    simp only [List.length_append, List.length_cons]
    omega
  unfold parsePrefix
  simp only [hchars, hbits, hlen, List.mem_append, List.mem_cons, true_or, or_true, if_true, List.take_left',
    parseAddr_text hv.1, parseDecimal_toDigits hv.2, Option.bind_eq_bind, Option.bind_some]

/-- The text of an invalid prefix is not one. -/
theorem parsePrefix_text_iff {p q : Prefix} : parsePrefix p.text = some q ↔ p.isValid = true ∧ p = q := by
  by_cases h : p.isValid = true
  · rw [parsePrefix_text h, Option.some.injEq]
    exact ⟨fun he => ⟨h, he⟩, fun he => he.2⟩
  · have htext : p.text = "invalid Prefix" := by rw [Prefix.text, if_neg h]
    have hnone : parsePrefix "invalid Prefix" = none := by decide
    rw [htext, hnone]
    exact ⟨fun he => absurd he (by simp), fun he => absurd he.1 h⟩

/-! ## Coverage -/

/-- A list of printed prefixes covers the address. -/
def coveredBy (texts : List String) (a : Addr) : Bool :=
  texts.any fun s => (parsePrefix s).any fun p => p.contains a

/-- A list of texts covers an address when the first one does or the others do. -/
theorem coveredBy_cons {s : String} {texts : List String} {a : Addr} :
    coveredBy (s :: texts) a = ((parsePrefix s).any (fun p => p.contains a) || coveredBy texts a) := rfl

/-- Printed prefixes cover what they contain. -/
theorem coveredBy_map_text {ps : List Prefix} {a : Addr} :
    coveredBy (ps.map Prefix.text) a = true ↔ ∃ p ∈ ps, p.contains a = true := by
  simp only [coveredBy, List.any_eq_true, List.mem_map, Option.any_eq_true]
  constructor
  · rintro ⟨_, ⟨p, hp, rfl⟩, q, hq, hc⟩
    obtain ⟨-, rfl⟩ := parsePrefix_text_iff.mp hq
    exact ⟨p, hp, hc⟩
  · rintro ⟨p, hp, hc⟩
    exact ⟨_, ⟨p, hp, rfl⟩, p, parsePrefix_text_iff.mpr ⟨Prefix.isValid_of_contains hc, rfl⟩, hc⟩

/-- An address with `/32` behind it reads as the prefix of one host. -/
theorem parsePrefix_host {a : Addr} :
    parsePrefix (a.text ++ "/32") = if a.isValid then some (Prefix.host a) else none := by
  by_cases h : a.isValid = true
  · have hv : (Prefix.host a).isValid = true := by
      cases a <;> simp_all [Prefix.host, Prefix.isValid, Addr.isValid, Addr.bitLen]
    have htext : a.text ++ "/32" = (Prefix.host a).text := by
      rw [Prefix.text, if_pos hv]
      simp only [Prefix.host, String.append_assoc]
      rfl
    rw [htext, parsePrefix_text hv, if_pos h]
  · rw [if_neg h]
    cases a with
    | invalid => decide
    | v4 a | v6 a => exact absurd rfl h

/-- A host route's text covers that host. -/
theorem coveredBy_host {a x : Addr} {texts : List String} : coveredBy ((a.text ++ "/32") :: texts) x = true ↔
    (Prefix.host a).contains x = true ∨ coveredBy texts x = true := by
  rw [coveredBy_cons, parsePrefix_host, Bool.or_eq_true]
  by_cases h : a.isValid = true
  · simp [h]
  · cases a with
    | invalid => cases x <;> simp [Prefix.host, Prefix.contains, Addr.isValid]
    | v4 a | v6 a => exact absurd rfl h

/-- The prefix of an IPv4 host contains nothing else, of either family. -/
theorem host_v4_contains {y : BitVec 32} {x : Addr} : (Prefix.host (.v4 y)).contains x = true ↔ x = .v4 y := by
  cases x with
  | invalid | v6 => simp [Prefix.host, Prefix.contains]
  | v4 x => rw [host_contains, eq_comm]

end Netip
