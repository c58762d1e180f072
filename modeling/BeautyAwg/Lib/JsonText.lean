import BeautyAwg.Lib.Json
import BeautyAwg.Lib.Strconv

/-!
# `JsonText`: JSON as text

A printer that writes what `encoding/json` writes, and a reader. The printer escapes quotes, backslashes, control
characters, the characters that mean something in HTML and the two line separators of Unicode. Numbers are integers
here, and the text has no blanks. What is printed is read back (`unmarshal_marshal`).

## Contents
- **Strings.** `escape`, `readString`, `readString_escape`.
- **Values.** `marshal`, `unmarshal`.
- **Round trip.** `Plain`, `unmarshal_marshal`.
-/

namespace Json

open Strconv

/-! ## Strings -/

/-- Four hexadecimal digits. -/
def hex4 (n : Nat) : List Char := [n / 4096 % 16, n / 256 % 16, n / 16 % 16, n % 16].map Nat.digitChar

/-- `<`, `>`, `&` and the line and paragraph separators. -/
def isUnsafe (c : Char) : Bool := c ∈ ['<', '>', '&'] ∨ c.toNat = 0x2028 ∨ c.toNat = 0x2029

/-- Characters with an escape of one letter. -/
def shortEscapes : List (Char × Char) :=
  [('"', '"'), ('\\', '\\'), ('\x08', 'b'), ('\x0c', 'f'), ('\n', 'n'), ('\r', 'r'), ('\t', 't')]

/-- A character inside a string. -/
def escape (c : Char) : List Char :=
  match shortEscapes.lookup c with
  | some letter => ['\\', letter]
  | none => if c.toNat < 32 ∨ isUnsafe c then '\\' :: 'u' :: hex4 c.toNat else [c]

/-- A string as a text writes it. -/
def quote (s : String) : List Char := '"' :: (s.toList.flatMap escape ++ ['"'])

/-- The value of a hexadecimal digit, in either case. -/
def hexValue (c : Char) : Option Nat := (List.range 16).find? fun d => Nat.digitChar d = c.toLower

/-- The character of four hexadecimal digits, which is no surrogate. -/
def ofHex4 (a b c d : Char) : Option Char := do
  let n := (← hexValue a) * 4096 + (← hexValue b) * 256 + (← hexValue c) * 16 + (← hexValue d)
  if n.isValidChar then some (Char.ofNat n) else none

/-- The character that a letter behind a backslash stands for. -/
def unescape : Char → Option Char
  | '"' => some '"'
  | '\\' => some '\\'
  | '/' => some '/'
  | 'b' => some '\x08'
  | 'f' => some '\x0c'
  | 'n' => some '\n'
  | 'r' => some '\r'
  | 't' => some '\t'
  | _ => none

/-- A string up to its closing quote, and what follows it. -/
def readString : List Char → Option (List Char × List Char)
  | [] => none
  | '\\' :: 'u' :: a :: b :: c :: d :: cs => do
    let x ← ofHex4 a b c d
    let r ← readString cs
    pure (x :: r.1, r.2)
  | '\\' :: c :: cs => do
    let x ← unescape c
    let r ← readString cs
    pure (x :: r.1, r.2)
  | c :: cs =>
    if c = '"' then some ([], cs)
    else if c.toNat < 32 ∨ c = '\\' then none
    else (readString cs).map fun r => (c :: r.1, r.2)

theorem hexValue_digitChar : ∀ d < 16, hexValue (Nat.digitChar d) = some d := by decide

/-- The four hexadecimal digits of a short escape give the character back. -/
theorem ofHex4_hex4 {c : Char} (h : c.toNat < 65536) :
    ∃ d₁ d₂ d₃ d₄, hex4 c.toNat = [d₁, d₂, d₃, d₄] ∧ ofHex4 d₁ d₂ d₃ d₄ = some c := by
  refine ⟨_, _, _, _, rfl, ?_⟩
  have hsum : c.toNat / 4096 % 16 * 4096 + c.toNat / 256 % 16 * 256 + c.toNat / 16 % 16 * 16 + c.toNat % 16 =
      c.toNat := by omega
  have hvalid : c.toNat.isValidChar := c.valid
  have hdigit : ∀ n, hexValue (Nat.digitChar (n % 16)) = some (n % 16) :=
    fun n => hexValue_digitChar _ (Nat.mod_lt n (by decide))
  simp only [ofHex4, hdigit, Option.bind_eq_bind, Option.bind_some, hsum]
  rw [if_pos hvalid, Char.ofNat_toNat]

/-- A backslash and a letter are read as the one character that they stand for. -/
theorem readString_letter {letter x : Char} (hu : letter ≠ 'u') (hx : unescape letter = some x) (rest : List Char) :
    readString ('\\' :: letter :: rest) = (readString rest).map fun r => (x :: r.1, r.2) := by
  rw [readString.eq_3 letter rest fun _ _ _ _ _ h => absurd h hu, hx, Option.map_eq_bind]
  rfl

/-- The letters the encoder writes are the ones the reader knows. -/
theorem unescape_letter {c letter : Char} (h : shortEscapes.lookup c = some letter) :
    letter ≠ 'u' ∧ unescape letter = some c := by
  have hall : ∀ e ∈ shortEscapes, e.2 ≠ 'u' ∧ unescape e.2 = some e.1 := by decide
  obtain ⟨l, l', heq, -⟩ := List.lookup_eq_some_iff.mp h
  exact hall (c, letter) (by rw [heq]; simp)

/-- **An escaped character is read back.** -/
theorem readString_escape (c : Char) (rest : List Char) :
    readString (escape c ++ rest) = (readString rest).map fun r => (c :: r.1, r.2) := by
  unfold escape
  split
  · rename_i letter hletter
    obtain ⟨hu, hx⟩ := unescape_letter hletter
    exact readString_letter hu hx rest
  · rename_i hnone
    have hquote : c ≠ '"' := by
      rintro rfl
      exact absurd hnone (by decide)
    have hslash : c ≠ '\\' := by
      rintro rfl
      exact absurd hnone (by decide)
    split
    · -- the characters with a long escape have four hexadecimal digits
      rename_i hspecial
      have hlt : c.toNat < 65536 := by
        rcases hspecial with h | h
        · omega
        · rcases of_decide_eq_true h with h | h | h
          · have hchars : (['<', '>', '&'].all fun x => x.toNat < 65536) = true := by decide
            exact of_decide_eq_true (List.all_eq_true.mp hchars c h)
          · omega
          · omega
      obtain ⟨d₁, d₂, d₃, d₄, hhex, hread⟩ := ofHex4_hex4 hlt
      rw [hhex]
      show readString ('\\' :: 'u' :: d₁ :: d₂ :: d₃ :: d₄ :: rest) = _
      rw [readString.eq_2, hread, Option.map_eq_bind]
      rfl
    · rename_i hplain
      rw [not_or] at hplain
      rw [List.singleton_append, readString.eq_4, if_neg hquote, if_neg (by simp [hplain.1, hslash])]
      · exact fun _ _ _ _ _ h => absurd h hslash
      · exact fun _ _ h => absurd h hslash

/-- A quoted string is read back, after its opening quote. -/
theorem readString_quote (s : List Char) (rest : List Char) :
    readString (s.flatMap escape ++ '"' :: rest) = some (s, rest) := by
  induction s with
  | nil =>
    show readString ('"' :: rest) = _
    rw [readString.eq_4, if_pos rfl]
    · exact fun _ _ _ _ _ h => absurd h (by decide)
    · exact fun _ _ h => absurd h (by decide)
  | cons c s ih =>
    rw [List.flatMap_cons, List.append_assoc, readString_escape, ih]
    rfl

/-! ## Values -/

/-- The comma that stands before each element but the first. -/
def comma (first : Bool) : List Char := if first then [] else [',']

mutual

/-- The text of a value, without blanks. -/
def marshal : Json → List Char
  | null => "null".toList
  | bool true => "true".toList
  | bool false => "false".toList
  | num x => formatInt x.num
  | str s => quote s
  | arr xs => '[' :: marshalElems true xs
  | obj fields => '{' :: marshalFields true fields

/-- The elements of an array from here on. -/
def marshalElems : Bool → List Json → List Char
  | _, [] => [']']
  | first, x :: xs => comma first ++ (marshal x ++ marshalElems false xs)

/-- The fields of an object from here on. -/
def marshalFields : Bool → List (String × Json) → List Char
  | _, [] => ['}']
  | first, (k, v) :: fields => comma first ++ (quote k ++ (':' :: (marshal v ++ marshalFields false fields)))

end

/-- This character comes next. -/
def expect (c : Char) : List Char → Option (List Char)
  | [] => none
  | d :: cs => if d = c then some cs else none

/-- A comma parts two items. -/
def skipComma (first : Bool) (cs : List Char) : Option (List Char) := if first then some cs else expect ',' cs

/-- A word that stands for a value. -/
def readWord (w : List Char) (v : Json) (cs : List Char) : Option (Json × List Char) :=
  if w.isPrefixOf cs then some (v, cs.drop w.length) else none

/-- A run of digits. -/
def readDigits (cs : List Char) : Option (Nat × List Char) :=
  if cs.takeWhile Char.isDigit = [] then none
  else some (Nat.ofDigitChars 10 (cs.takeWhile Char.isDigit) 0, cs.dropWhile Char.isDigit)

/-- A number, with its sign. -/
def readNum (cs : List Char) : Option (Json × List Char) :=
  match cs with
  | '-' :: cs => (readDigits cs).map fun r => (num (-r.1), r.2)
  | cs => (readDigits cs).map fun r => (num r.1, r.2)

mutual

/-- The value at the start of the text, and what is left; with fuel for its depth. -/
def readValue : Nat → List Char → Option (Json × List Char)
  | 0, _ => none
  | _ + 1, [] => none
  | fuel + 1, c :: cs =>
    if c = '"' then (readString cs).map fun r => (str (String.ofList r.1), r.2)
    else if c = '[' then (readElems fuel true cs).map fun r => (arr r.1, r.2)
    else if c = '{' then (readFields fuel true cs).map fun r => (obj r.1, r.2)
    else if c = 'n' then readWord "null".toList null (c :: cs)
    else if c = 't' then readWord "true".toList (bool true) (c :: cs)
    else if c = 'f' then readWord "false".toList (bool false) (c :: cs)
    else readNum (c :: cs)

/-- The rest of an array. -/
def readElems : Nat → Bool → List Char → Option (List Json × List Char)
  | 0, _, _ => none
  | fuel + 1, first, cs =>
    if cs.head? = some ']' then some ([], cs.tail)
    else do
      let cs ← skipComma first cs
      let r ← readValue fuel cs
      let rs ← readElems fuel false r.2
      pure (r.1 :: rs.1, rs.2)

/-- The rest of an object. -/
def readFields : Nat → Bool → List Char → Option (List (String × Json) × List Char)
  | 0, _, _ => none
  | fuel + 1, first, cs =>
    if cs.head? = some '}' then some ([], cs.tail)
    else do
      let cs ← skipComma first cs
      let k ← readString (← expect '"' cs)
      let r ← readValue fuel (← expect ':' k.2)
      let rs ← readFields fuel false r.2
      pure ((String.ofList k.1, r.1) :: rs.1, rs.2)

end

/-- The value of a text. Each call of the reader takes a character, or is the only one at its place for a value. -/
def unmarshal (cs : List Char) : Option Json :=
  match readValue (2 * cs.length + 1) cs with
  | some (v, []) => some v
  | _ => none

/-! ## Round trip -/

mutual

/-- All numbers are integers. -/
def Plain : Json → Prop
  | null => True
  | bool _ => True
  | num x => x.den = 1
  | str _ => True
  | arr xs => PlainElems xs
  | obj fields => PlainFields fields

/-- All numbers below the array are integers. -/
def PlainElems : List Json → Prop
  | [] => True
  | x :: xs => Plain x ∧ PlainElems xs

/-- All numbers below the object are integers. -/
def PlainFields : List (String × Json) → Prop
  | [] => True
  | f :: fields => Plain f.2 ∧ PlainFields fields

end

mutual

/-- The keys of every object ascend, as those of a map that is printed do. -/
def Sorted : Json → Prop
  | arr xs => SortedElems xs
  | obj fields => (fields.map Prod.fst).Pairwise (· < ·) ∧ SortedFields fields
  | _ => True

/-- All objects below the array have their keys in order. -/
def SortedElems : List Json → Prop
  | [] => True
  | x :: xs => Sorted x ∧ SortedElems xs

/-- All objects below the object's own keys have theirs in order. -/
def SortedFields : List (String × Json) → Prop
  | [] => True
  | f :: fields => Sorted f.2 ∧ SortedFields fields

end

/-- What follows a number does not go on with it. -/
def NoDigit (rest : List Char) : Prop := ∀ c ∈ rest.head?, c.isDigit = false

theorem noDigit_cons {c : Char} {rest : List Char} (h : c.isDigit = false) : NoDigit (c :: rest) := by
  intro d hd
  rw [← Option.some.inj hd]
  exact h

section Numbers

variable {rest : List Char}

/-- The digits of a number are read back, and the reader stops at the first character that is none. -/
theorem readDigits_toDigits (n : Nat) (h : NoDigit rest) : readDigits (Nat.toDigits 10 n ++ rest) = some (n, rest) := by
  have hdigits : ∀ c ∈ Nat.toDigits 10 n, c.isDigit = true :=
    fun c hc => Nat.isDigit_of_mem_toDigits (by omega) (by omega) hc
  have htake : rest.takeWhile Char.isDigit = [] ∧ rest.dropWhile Char.isDigit = rest := by
    cases rest with
    | nil => exact ⟨rfl, rfl⟩
    | cons c cs =>
      have hc := h c rfl
      exact ⟨List.takeWhile_cons_of_neg (by simp [hc]), List.dropWhile_cons_of_neg (by simp [hc])⟩
  unfold readDigits
  rw [List.takeWhile_append_of_pos hdigits, List.dropWhile_append_of_pos hdigits, htake.1, htake.2, List.append_nil,
    if_neg Nat.toDigits_ne_nil, Nat.ofDigitChars_ten_toDigits]

/-- The first character of an integer. -/
theorem formatInt_head (n : Int) : ∃ c cs, formatInt n = c :: cs ∧ (c = '-' ∨ c.isDigit = true) := by
  cases n with
  | ofNat n =>
    obtain ⟨c, cs, hcs⟩ := List.exists_cons_of_ne_nil (Nat.toDigits_ne_nil (n := n) (b := 10))
    have hmem : c ∈ Nat.toDigits 10 n := by
      rw [hcs]
      exact List.mem_cons_self
    exact ⟨c, cs, hcs, .inr (Nat.isDigit_of_mem_toDigits (by omega) (by omega) hmem)⟩
  | negSucc n => exact ⟨'-', _, rfl, .inl rfl⟩

/-- An integer's text is read back as that integer. -/
theorem readNum_formatInt (n : Int) (h : NoDigit rest) : readNum (formatInt n ++ rest) = some (num n, rest) := by
  cases n with
  | ofNat n =>
    obtain ⟨c, cs, hcs, hc⟩ := formatInt_head (.ofNat n)
    have hminus : c ≠ '-' := by
      rintro rfl
      have hmem : '-' ∈ Nat.toDigits 10 n := by
        have hcs' : Nat.toDigits 10 n = '-' :: cs := hcs
        rw [hcs']
        exact List.mem_cons_self
      exact absurd (Nat.isDigit_of_mem_toDigits (by omega) (by omega) hmem) (by decide)
    have hread : readNum (formatInt (.ofNat n) ++ rest) =
        (readDigits (formatInt (.ofNat n) ++ rest)).map fun r => (num r.1, r.2) := by
      rw [hcs, List.cons_append, readNum]
      exact fun _ he => absurd (List.cons.inj he).1 hminus
    have hdigits : formatInt (.ofNat n) = Nat.toDigits 10 n := rfl
    rw [hread, hdigits, readDigits_toDigits n h]
    rfl
  | negSucc n =>
    have hdigits : formatInt (.negSucc n) = '-' :: Nat.toDigits 10 (n + 1) := rfl
    rw [hdigits, List.cons_append, readNum, readDigits_toDigits _ h, Option.map_some]
    congr 3

end Numbers

/-- The first character of a value. -/
theorem marshal_head (v : Json) : ∃ c cs, marshal v = c :: cs ∧ c ≠ ']' := by
  cases v with
  | null => exact ⟨'n', _, rfl, by decide⟩
  | bool b => cases b <;> exact ⟨_, _, rfl, by decide⟩
  | num x =>
    obtain ⟨c, cs, hcs, hc⟩ := formatInt_head x.num
    refine ⟨c, cs, hcs, ?_⟩
    rintro rfl
    rcases hc with hc | hc <;> exact absurd hc (by decide)
  | str s => exact ⟨'"', _, rfl, by decide⟩
  | arr xs => exact ⟨'[', _, rfl, by decide⟩
  | obj fields => exact ⟨'{', _, rfl, by decide⟩

/-- What follows an element is a comma or the end. -/
theorem noDigit_elems (xs : List Json) (rest : List Char) : NoDigit (marshalElems false xs ++ rest) := by
  cases xs <;> exact noDigit_cons (by decide)

theorem noDigit_fields (fields : List (String × Json)) (rest : List Char) :
    NoDigit (marshalFields false fields ++ rest) := by
  cases fields <;> exact noDigit_cons (by decide)

theorem skipComma_comma (first : Bool) (cs : List Char) : skipComma first (comma first ++ cs) = some cs := by
  cases first <;> rfl

/-- A quoted string is read back to its closing quote. -/
theorem readString_quoted (s : String) (rest : List Char) :
    (expect '"' (quote s ++ rest)).bind readString = some (s.toList, rest) := by
  show readString (s.toList.flatMap escape ++ ['"'] ++ rest) = _
  rw [List.append_assoc]
  exact readString_quote s.toList rest

/-! The reader calls itself on as much text for an element as it was given for the elements, so a call for elements
or fields needs one more of fuel than twice its text. -/

mutual

/-- The text of a plain value is read back as the value, with fuel for twice its length. -/
theorem readValue_marshal : ∀ (v : Json), v.Plain → ∀ fuel rest, 2 * (marshal v ++ rest).length < fuel →
    NoDigit rest → readValue fuel (marshal v ++ rest) = some (v, rest)
  | null, _, fuel + 1, rest, _, _ => rfl
  | bool true, _, fuel + 1, rest, _, _ => rfl
  | bool false, _, fuel + 1, rest, _, _ => rfl
  | num x, hplain, fuel + 1, rest, _, hrest => by
    obtain ⟨c, cs, hcs, hc⟩ := formatInt_head x.num
    have hnum := readNum_formatInt x.num hrest
    have hx : ((x.num : Int) : Rat) = x := Rat.den_eq_one_iff x |>.mp hplain
    rw [hx] at hnum
    show readValue (fuel + 1) (formatInt x.num ++ rest) = _
    rw [hcs] at hnum ⊢
    rw [List.cons_append] at hnum ⊢
    -- the reader tells a value by its first character, and no other kind starts with a sign or a digit
    have hother : ∀ d ∈ ['"', '[', '{', 'n', 't', 'f'], c ≠ d := by
      have hneither : (['"', '[', '{', 'n', 't', 'f'].all fun d => ¬ (d = '-' ∨ d.isDigit = true)) = true := by decide
      rintro d hd rfl
      exact of_decide_eq_true (List.all_eq_true.mp hneither c hd) hc
    rw [readValue, if_neg (hother _ (by decide)), if_neg (hother _ (by decide)), if_neg (hother _ (by decide)),
      if_neg (hother _ (by decide)), if_neg (hother _ (by decide)), if_neg (hother _ (by decide)), hnum]
  | str s, _, fuel + 1, rest, _, _ => by
    have hread := readString_quote s.toList rest
    show (readString (s.toList.flatMap escape ++ ['"'] ++ rest)).map _ = _
    rw [List.append_assoc, List.singleton_append, hread, Option.map_some, String.ofList_toList]
  | arr xs, hplain, fuel + 1, rest, hfuel, _ => by
    have hread := readElems_marshal xs hplain true fuel rest (by
      simp only [marshal, List.cons_append, List.length_cons] at hfuel
      omega)
    show (readElems fuel true (marshalElems true xs ++ rest)).map _ = _
    rw [hread]
    rfl
  | obj fields, hplain, fuel + 1, rest, hfuel, _ => by
    have hread := readFields_marshal fields hplain true fuel rest (by
      simp only [marshal, List.cons_append, List.length_cons] at hfuel
      omega)
    show (readFields fuel true (marshalFields true fields ++ rest)).map _ = _
    rw [hread]
    rfl

/-- The same for the elements of an array, each after its comma. -/
theorem readElems_marshal : ∀ (xs : List Json), PlainElems xs → ∀ first fuel rest,
    2 * (marshalElems first xs ++ rest).length + 1 < fuel →
      readElems fuel first (marshalElems first xs ++ rest) = some (xs, rest)
  | [], _, first, fuel + 1, rest, _ => by cases first <;> rfl
  | x :: xs, hplain, first, fuel + 1, rest, hfuel => by
    obtain ⟨c, cs, hhead, hc⟩ := marshal_head x
    have htext : marshalElems first (x :: xs) ++ rest =
        comma first ++ (marshal x ++ (marshalElems false xs ++ rest)) := by
      rw [marshalElems, List.append_assoc, List.append_assoc]
    rw [htext] at hfuel ⊢
    have hlen : (marshal x).length = cs.length + 1 := by rw [hhead, List.length_cons]
    simp only [List.length_append] at hfuel
    have hread := readValue_marshal x hplain.1 fuel (marshalElems false xs ++ rest)
      (by simp only [List.length_append]; omega) (noDigit_elems xs rest)
    have hmore := readElems_marshal xs hplain.2 false fuel rest (by simp only [List.length_append]; omega)
    -- a comma comes first, or the head of a value, and neither ends the array
    have hend : ¬ (comma first ++ (marshal x ++ (marshalElems false xs ++ rest))).head? = some ']' := by
      cases first
      · exact fun h => absurd (Option.some.inj h) (by decide)
      · rw [hhead]
        exact fun h => hc (Option.some.inj h)
    rw [readElems, if_neg hend, skipComma_comma]
    show (readValue fuel (marshal x ++ (marshalElems false xs ++ rest))).bind _ = _
    rw [hread]
    show (readElems fuel false (marshalElems false xs ++ rest)).bind _ = _
    rw [hmore]
    rfl

/-- The same for the fields of an object. -/
theorem readFields_marshal : ∀ (fields : List (String × Json)), PlainFields fields → ∀ first fuel rest,
    2 * (marshalFields first fields ++ rest).length + 1 < fuel →
      readFields fuel first (marshalFields first fields ++ rest) = some (fields, rest)
  | [], _, first, fuel + 1, rest, _ => by cases first <;> rfl
  | (k, v) :: fields, hplain, first, fuel + 1, rest, hfuel => by
    have htext : marshalFields first ((k, v) :: fields) ++ rest = comma first ++
        (quote k ++ (':' :: (marshal v ++ (marshalFields false fields ++ rest)))) := by
      simp only [marshalFields, List.append_assoc, List.cons_append]
    rw [htext] at hfuel ⊢
    simp only [List.length_append, List.length_cons] at hfuel
    have hread := readValue_marshal v hplain.1 fuel (marshalFields false fields ++ rest)
      (by simp only [List.length_append]; omega) (noDigit_fields fields rest)
    have hmore := readFields_marshal fields hplain.2 false fuel rest (by simp only [List.length_append]; omega)
    have hend : ¬ (comma first ++ (quote k ++
        (':' :: (marshal v ++ (marshalFields false fields ++ rest))))).head? = some '}' := by
      cases first <;> exact fun h => absurd (Option.some.inj h) (by decide)
    have hkey := readString_quoted k (':' :: (marshal v ++ (marshalFields false fields ++ rest)))
    rw [readFields, if_neg hend, skipComma_comma]
    show ((expect '"' (quote k ++ _)).bind fun cs => (readString cs).bind _) = _
    rw [← Option.bind_assoc, hkey]
    show (readValue fuel (marshal v ++ (marshalFields false fields ++ rest))).bind _ = _
    rw [hread]
    show (readFields fuel false (marshalFields false fields ++ rest)).bind _ = _
    rw [hmore, Option.bind_some, String.ofList_toList]
    rfl

end

/-- **Round trip.** -/
theorem unmarshal_marshal {v : Json} (hplain : v.Plain) : unmarshal (marshal v) = some v := by
  have hread := readValue_marshal v hplain (2 * (marshal v).length + 1) [] (by simp) fun _ h => absurd h (by simp)
  rw [List.append_nil] at hread
  rw [unmarshal, hread]

end Json
