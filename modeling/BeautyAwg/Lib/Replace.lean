import Mathlib.Data.List.Infix

/-!
# `Replace`: replacing the occurrences of a text

`replaceAll` scans a text once and replaces each occurrence of `old`. A text is `Clear` when no occurrence
begins in it whatever follows; the scan leaves it as it is. Clear texts compose, so a long text is clear
when its pieces are, and a piece is clear once it ends in a character that `old` does not have.

## Contents
- **Scanning.** `replaceAll`, `Occurs`.
- **Clear texts.** `Clear`, `Clear.append`, `Clear.join`, `clear_of_head`, `clear_field`.
- **The scan.** `replaceAll_clear`, `replaceAll_once`: one occurrence between two clear texts.
-/

namespace Replace

/-! ## Scanning -/

/-- `ReplaceAll` for a non-empty `old`; `skip` characters belong to an occurrence already replaced. -/
def replaceAll (old new : List Char) : Nat → List Char → List Char
  | _, [] => []
  | skip + 1, _ :: cs => replaceAll old new skip cs
  | 0, c :: cs =>
    if old.isPrefixOf (c :: cs) then new ++ replaceAll old new (old.length - 1) cs
    else c :: replaceAll old new 0 cs

/-- `old` is somewhere in `s`. -/
def Occurs (old s : String) : Prop := old.toList <:+: s.toList

instance (old s : String) : Decidable (Occurs old s) := inferInstanceAs (Decidable (_ <:+: _))

/-! ## Clear texts -/

/-- No occurrence of `old` begins in the text, whatever follows it. -/
def ClearList (old : List Char) : List Char → Prop
  | [] => True
  | c :: cs => (¬ old <+: c :: cs ∧ ¬ c :: cs <+: old) ∧ ClearList old cs

/-- No occurrence can begin inside the text, not even one that ends behind it. -/
structure Clear (old s : String) : Prop where
  chars : ClearList old.toList s.toList

instance decidableClearList (old : List Char) : (cs : List Char) → Decidable (ClearList old cs)
  | [] => isTrue trivial
  | _ :: cs =>
    have := decidableClearList old cs
    inferInstanceAs (Decidable (_ ∧ _))

instance (old s : String) : Decidable (Clear old s) :=
  decidable_of_iff (ClearList old.toList s.toList) ⟨Clear.mk, Clear.chars⟩

/-- Two texts in which the pattern cannot start are joined into one. -/
theorem clearList_append {old a b : List Char} (ha : ClearList old a) (hb : ClearList old b) :
    ClearList old (a ++ b) := by
  induction a with
  | nil => exact hb
  | cons c cs ih =>
    -- an occurrence that begins in `a` ends in `a` or begins with the rest of it: `Clear` has excluded both
    refine ⟨⟨fun h => ?_, fun h => ?_⟩, ih ha.2⟩
    · rcases List.prefix_or_prefix_of_prefix h (List.prefix_append (c :: cs) b) with h' | h'
      · exact ha.1.1 h'
      · exact ha.1.2 h'
    · exact ha.1.2 ((List.prefix_append (c :: cs) b).trans h)

/-- A text without the character that `old` begins with. -/
theorem clearList_of_head {old cs : List Char} {x : Char} (hhead : old.head? = some x) (h : x ∉ cs) :
    ClearList old cs := by
  obtain ⟨old', rfl⟩ : ∃ old', old = x :: old' := by
    cases old with
    | nil => exact absurd hhead (by simp)
    | cons y old' => exact ⟨old', by rw [Option.some.inj hhead]⟩
  induction cs with
  | nil => trivial
  | cons c cs ih =>
    rw [List.mem_cons, not_or] at h
    refine ⟨⟨fun hp => h.1 ?_, fun hp => h.1 ?_⟩, ih h.2⟩
    · exact (List.cons_prefix_cons.mp hp).1
    · exact (List.cons_prefix_cons.mp hp).1.symm

/-- What ends in a character that `old` does not have is clear if `old` does not occur before it: an
    occurrence that began there would have to run over the end. -/
theorem clearList_field {old cs : List Char} {x : Char} (hx : x ∉ old) (hold : old ≠ []) (h : ¬ old <:+: cs) :
    ClearList old (cs ++ [x]) := by
  have hlast : ∀ l, ¬ l ++ [x] <+: old := fun l hp => hx (hp.subset (by simp))
  induction cs with
  | nil =>
    refine ⟨⟨fun hp => ?_, hlast []⟩, trivial⟩
    obtain ⟨y, hy⟩ := List.exists_mem_of_ne_nil old hold
    exact hx (List.mem_singleton.mp (hp.subset hy) ▸ hy)
  | cons c cs ih =>
    refine ⟨⟨fun hp => ?_, hlast (c :: cs)⟩, ih fun hi => h (hi.trans (List.infix_cons (List.infix_refl cs)))⟩
    have hwhole : old <+: (c :: cs) ++ [x] := hp
    -- either the occurrence takes the end as its last character, or it lies in the field
    rcases List.prefix_concat_iff.mp hwhole with heq | hpre
    · exact hx (by rw [heq]; simp)
    · exact h hpre.isInfix

namespace Clear

variable {old s t : String}

theorem empty : Clear old "" := ⟨trivial⟩

theorem append (hs : Clear old s) (ht : Clear old t) : Clear old (s ++ t) := by
  constructor
  rw [String.toList_append]
  exact clearList_append hs.chars ht.chars

theorem join {ss : List String} (h : ∀ s ∈ ss, Clear old s) : Clear old (String.join ss) := by
  induction ss with
  | nil => exact empty
  | cons s ss ih =>
    rw [String.join_cons]
    exact (h s List.mem_cons_self).append (ih fun t ht => h t (List.mem_cons_of_mem _ ht))

theorem intercalate {sep : String} {ss : List String} (hsep : Clear old sep) (h : ∀ s ∈ ss, Clear old s) :
    Clear old (sep.intercalate ss) := by
  induction ss with
  | nil => exact empty
  | cons s ss ih =>
    have hs := h s List.mem_cons_self
    have ih := ih fun t ht => h t (List.mem_cons_of_mem _ ht)
    cases ss with
    | nil => simpa using hs
    | cons t ts =>
      rw [String.intercalate_cons_of_ne_nil (by simp)]
      exact (hs.append hsep).append ih

end Clear

/-- A text without the pattern's first character is clear of it. -/
theorem clear_of_head {old s : String} {x : Char} (hhead : old.toList.head? = some x) (h : x ∉ s.toList) :
    Clear old s :=
  ⟨clearList_of_head hhead h⟩

/-- Nor does the pattern occur in such a text. -/
theorem not_occurs_of_head {old s : String} {x : Char} (hhead : old.toList.head? = some x) (h : x ∉ s.toList) :
    ¬ Occurs old s := fun hi => h (hi.subset (List.mem_of_mem_head? hhead))

/-- A field and its end `sep`, which starts with a character that `old` does not have. -/
theorem clear_field {old s sep : String} {x : Char} (hx : x ∉ old.toList) (hold : old.toList ≠ [])
    (hsep : sep.toList = [x]) (h : ¬ Occurs old s) : Clear old (s ++ sep) := by
  constructor
  rw [String.toList_append, hsep]
  exact clearList_field hx hold h

/-! ## The scan -/

variable {old new : List Char}

/-- The characters of a match are skipped. -/
theorem replaceAll_skip (a b : List Char) : replaceAll old new a.length (a ++ b) = replaceAll old new 0 b := by
  induction a with
  | nil => rfl
  | cons c cs ih => exact ih

/-- A clear text is copied as it is. -/
theorem replaceAll_clear {cs : List Char} (h : ClearList old cs) (rest : List Char) :
    replaceAll old new 0 (cs ++ rest) = cs ++ replaceAll old new 0 rest := by
  induction cs with
  | nil => rfl
  | cons c cs ih =>
    have hno : old.isPrefixOf (c :: (cs ++ rest)) = false := by
      rw [Bool.eq_false_iff, ne_eq, List.isPrefixOf_iff_prefix]
      intro hp
      rcases List.prefix_or_prefix_of_prefix hp (List.prefix_append (c :: cs) rest) with h' | h'
      · exact h.1.1 h'
      · exact h.1.2 h'
    rw [List.cons_append, replaceAll, hno]
    exact congrArg (c :: ·) (ih h.2)

/-- The pattern at the front gives way to the new text. -/
theorem replaceAll_prefix (hold : old ≠ []) (rest : List Char) :
    replaceAll old new 0 (old ++ rest) = new ++ replaceAll old new 0 rest := by
  cases old with
  | nil => exact absurd rfl hold
  | cons c cs =>
    have hyes : (c :: cs).isPrefixOf (c :: (cs ++ rest)) = true :=
      List.isPrefixOf_iff_prefix.mpr (List.prefix_append (c :: cs) rest)
    rw [List.cons_append, replaceAll, hyes, if_pos rfl]
    exact congrArg (new ++ ·) (replaceAll_skip cs rest)

/-- One occurrence, between two clear texts. -/
theorem replaceAll_once {old head tail : String} (hold : old.toList ≠ []) (hhead : Clear old head)
    (htail : Clear old tail) (new : String) :
    String.ofList (replaceAll old.toList new.toList 0 (head ++ (old ++ tail)).toList) = head ++ (new ++ tail) := by
  apply String.toList_injective
  have hend : replaceAll old.toList new.toList 0 tail.toList = tail.toList := by
    simpa [replaceAll] using replaceAll_clear htail.chars []
  rw [String.toList_ofList, String.toList_append, String.toList_append, replaceAll_clear hhead.chars,
    replaceAll_prefix hold, hend, String.toList_append, String.toList_append]

end Replace
