import Mathlib.Data.List.TakeWhile
import Mathlib.Tactic.Common

/-!
# `QuickConf`: the file format of `awg-quick`

A file is read line by line: a comment runs from `#` to the end of the line, a line whose key part starts
with `[` opens a section, and any other line that is not blank is `Key = Value`, split at its first `=`.

## Contents
- **Reading.** `parseLine`, `items`, `sections`, `parse`.
- **Blocks.** `Block s ls`: the text `s` is the whole lines `ls`; blocks compose (`Block.append`, `Block.join`).
- **Writing.** `Lines s is`: the text `s` is a block of whole lines that reads as `is`; these compose
  (`Lines.append`, `Lines.join`), and `Lines.entry` is a `Key = Value` line with a `Clean` value.
- **Round trip.** `parse_of_lines`.
- **Lists.** `fields` of a comma-separated value, `fields_intercalate`.
-/

namespace QuickConf

/-! ## Reading -/

/-- A section of the file with its entries. -/
structure Section where
  name : String
  entries : List (String × String)
  deriving DecidableEq, Repr

/-- What a line can say. -/
inductive Item where
  | header (name : String)
  | entry (key value : String)
  deriving DecidableEq, Repr

/-- A blank inside a line. -/
def isSpace (c : Char) : Bool := c = ' ' ∨ c = '\t' ∨ c = '\r' ∨ c = '\x0b' ∨ c = '\x0c'

/-- The text without blanks at its ends. -/
def trim (cs : List Char) : List Char := ((cs.dropWhile isSpace).reverse.dropWhile isSpace).reverse

/-- The items of one line: none if it is blank. A line with no key, or with a key and no `=`, is refused. -/
def parseLine (line : List Char) : Option (List Item) :=
  let stripped := line.takeWhile (· ≠ '#')
  match trim (stripped.takeWhile (· ≠ '=')) with
  | '[' :: cs => if cs.getLast? = some ']' then some [.header (String.ofList cs.dropLast)] else none
  | [] => if '=' ∈ stripped then none else some []
  | key =>
    if '=' ∈ stripped then
      some [.entry (String.ofList key) (String.ofList (trim ((stripped.dropWhile (· ≠ '=')).drop 1)))]
    else none

/-- What the lines say, one after another; nothing if one of them cannot be read. -/
def itemsOfLines : List (List Char) → Option (List Item)
  | [] => some []
  | l :: ls =>
    match parseLine l, itemsOfLines ls with
    | some is, some js => some (is ++ js)
    | _, _ => none

/-- What the text says, line by line. -/
def items (text : List Char) : Option (List Item) := itemsOfLines (text.splitOn '\n')

/-- The entries before the first header, and the sections. -/
def sections : List Item → List (String × String) × List Section
  | [] => ([], [])
  | .entry key value :: is => ((key, value) :: (sections is).1, (sections is).2)
  | .header name :: is => ([], ⟨name, (sections is).1⟩ :: (sections is).2)

/-- The sections of a file; a line that is refused or outside any section spoils it. -/
def parse (text : String) : Option (List Section) :=
  match (items text.toList).map sections with
  | some ([], ss) => some ss
  | _ => none

example : parse "[Interface]\nPort = 1 # one\n\n[Peer]\nKey=a=b\n" =
    some [⟨"Interface", [("Port", "1")]⟩, ⟨"Peer", [("Key", "a=b")]⟩] := by decide +kernel

/-! ## Blocks -/

/-- The text's lines. -/
def lines (text : String) : List (List Char) := text.toList.splitOn '\n'

/-- The text is these whole lines, whatever follows. -/
def Block (s : String) (ls : List (List Char)) : Prop :=
  ∀ rest, (s.toList ++ rest).splitOn '\n' = ls ++ rest.splitOn '\n'

namespace Block

variable {s t : String} {ls ms : List (List Char)}

theorem empty : Block "" [] := fun _ => rfl

theorem broken (s : String) : Block (s ++ "\n") (lines s) := by
  intro rest
  rw [String.toList_append, List.append_assoc]
  exact List.splitOn_append_cons_self _ _

theorem append (hs : Block s ls) (ht : Block t ms) : Block (s ++ t) (ls ++ ms) := by
  intro rest
  rw [String.toList_append, List.append_assoc, List.append_assoc, hs, ht]

theorem join {α : Type} {xs : List α} {f : α → String} {g : α → List (List Char)} (h : ∀ x ∈ xs, Block (f x) (g x)) :
    Block (String.join (xs.map f)) (xs.flatMap g) := by
  induction xs with
  | nil => exact empty
  | cons x xs ih =>
    rw [List.map_cons, String.join_cons, List.flatMap_cons]
    exact (h x List.mem_cons_self).append (ih fun y hy => h y (List.mem_cons_of_mem _ hy))

/-- What follows a block begins a line. -/
theorem lines_append (hs : Block s ls) (t : String) : lines (s ++ t) = ls ++ lines t := by
  unfold lines
  rw [String.toList_append, hs]

end Block

/-! ## Writing -/

/-- The text is a block of whole lines that reads as `is`, whatever follows. -/
def Lines (s : String) (is : List Item) : Prop :=
  ∀ rest js, items rest = some js → items (s.toList ++ rest) = some (is ++ js)

/-- The items of two runs of lines are joined. -/
theorem itemsOfLines_append {ls ms : List (List Char)} {is js : List Item} (hls : itemsOfLines ls = some is)
    (hms : itemsOfLines ms = some js) : itemsOfLines (ls ++ ms) = some (is ++ js) := by
  induction ls generalizing is with
  | nil =>
    obtain rfl := Option.some.inj hls
    exact hms
  | cons l ls ih =>
    simp only [itemsOfLines] at hls
    split at hls
    · rename_i ks ks' hl hrest
      obtain rfl := Option.some.inj hls
      rw [List.cons_append, itemsOfLines, hl, ih hrest, List.append_assoc]
    · exact absurd hls (by simp)

/-- A text without a line break is one line. -/
theorem items_of_not_mem {l : List Char} (hl : '\n' ∉ l) : items l = parseLine l := by
  unfold items
  rw [List.splitOn_eq_singleton hl, itemsOfLines]
  cases parseLine l with
  | none => rfl
  | some is => simp [itemsOfLines]

/-- The lines of a text whose first line is begun by `l`. -/
theorem splitOn_append_of_not_mem {l cs : List Char} (hl : '\n' ∉ l) :
    (l ++ cs).splitOn '\n' = (cs.splitOn '\n').modifyHead (l ++ ·) := by
  induction l with
  | nil => cases h : cs.splitOn '\n' <;> simp [h]
  | cons c l ih =>
    rw [List.mem_cons, not_or] at hl
    rw [List.cons_append, List.splitOn_cons_eq_if_modifyHead, if_neg (by simpa using Ne.symm hl.1), ih hl.2]
    cases cs.splitOn '\n' <;> rfl

namespace Lines

theorem empty : Lines "" [] := fun _ _ h => h

theorem block {s : String} {is : List Item} (h : items s.toList = some is) : Lines (s ++ "\n") is := by
  intro rest js hjs
  rw [items, Block.broken s]
  exact itemsOfLines_append h hjs

theorem line {s : String} {is : List Item} (hs : '\n' ∉ s.toList) (h : parseLine s.toList = some is) :
    Lines (s ++ "\n") is :=
  block ((items_of_not_mem hs).trans h)

theorem append {s t : String} {is js : List Item} (hs : Lines s is) (ht : Lines t js) :
    Lines (s ++ t) (is ++ js) := by
  intro rest ks hks
  rw [String.toList_append, List.append_assoc, List.append_assoc]
  exact hs _ _ (ht _ _ hks)

theorem join {α : Type} {xs : List α} {f : α → String} {g : α → List Item}
    (h : ∀ x ∈ xs, Lines (f x) (g x)) : Lines (String.join (xs.map f)) (xs.flatMap g) := by
  induction xs with
  | nil => exact empty
  | cons x xs ih =>
    rw [List.map_cons, String.join_cons, List.flatMap_cons]
    exact (h x List.mem_cons_self).append (ih fun y hy => h y (List.mem_cons_of_mem _ hy))

end Lines

/-! ### Clean values -/

/-- A value that survives its line: no line break or comment in it, and no blanks around it. -/
structure Clean (s : String) : Prop where
  noBreak : '\n' ∉ s.toList
  noComment : '#' ∉ s.toList
  head : ∀ c ∈ s.toList.head?, isSpace c = false
  last : ∀ c ∈ s.toList.getLast?, isSpace c = false

/-- No blank, line break or comment anywhere. -/
def Solid (s : String) : Prop := ∀ c ∈ s.toList, isSpace c = false ∧ c ≠ '\n' ∧ c ≠ '#'

instance (s : String) : Decidable (Solid s) := List.decidableBAll _ s.toList

/-- A text without blanks, breaks and hash signs is clean. -/
theorem Solid.clean {s : String} (h : Solid s) : Clean s where
  noBreak hm := (h _ hm).2.1 rfl
  noComment hm := (h _ hm).2.2 rfl
  head _ hc := (h _ (List.mem_of_mem_head? hc)).1
  last _ hc := (h _ (List.mem_of_mem_getLast? hc)).1

/-- Two solid texts written together are solid. -/
theorem Solid.append {s t : String} (hs : Solid s) (ht : Solid t) : Solid (s ++ t) := by
  intro c hc
  rw [String.toList_append] at hc
  exact (List.mem_append.mp hc).elim (hs c) (ht c)

/-- Two clean texts written together are clean. -/
theorem Clean.append {s t : String} (hs : Clean s) (ht : Clean t) : Clean (s ++ t) where
  noBreak := by simp [String.toList_append, hs.noBreak, ht.noBreak]
  noComment := by simp [String.toList_append, hs.noComment, ht.noComment]
  head c hc := by
    rw [String.toList_append] at hc
    cases h : s.toList with
    | nil => exact ht.head c (by simpa [h] using hc)
    | cons d ds => exact hs.head c (by simpa [h] using hc)
  last c hc := by
    rw [String.toList_append, List.getLast?_append] at hc
    cases h : t.toList.getLast? with
    | none => exact hs.last c (by simpa [h] using hc)
    | some d => exact ht.last c (by simpa [h] using hc)

/-- A separator may have blanks at its ends where every part has text. -/
theorem Clean.between {s t sep : String} (hs : Clean s) (ht : Clean t) (hs' : s ≠ "") (ht' : t ≠ "")
    (hsep : '\n' ∉ sep.toList ∧ '#' ∉ sep.toList) : Clean (s ++ sep ++ t) where
  noBreak := by simp [String.toList_append, hs.noBreak, ht.noBreak, hsep.1]
  noComment := by simp [String.toList_append, hs.noComment, ht.noComment, hsep.2]
  head c hc := by
    rw [String.toList_append, String.toList_append] at hc
    cases h : s.toList with
    | nil => exact absurd (String.toList_eq_nil_iff.mp h) hs'
    | cons d ds => exact hs.head c (by simpa [h] using hc)
  last c hc := by
    rw [String.toList_append, List.getLast?_append] at hc
    cases h : t.toList.getLast? with
    | none => exact absurd (String.toList_eq_nil_iff.mp (List.getLast?_eq_none_iff.mp h)) ht'
    | some d => exact ht.last c (by simpa [h] using hc)

/-- Clean texts joined by a separator without breaks and hash signs are clean. -/
theorem clean_intercalate {sep : String} {ss : List String} (hsep : '\n' ∉ sep.toList ∧ '#' ∉ sep.toList)
    (h : ∀ s ∈ ss, Clean s ∧ s ≠ "") : Clean (sep.intercalate ss) ∧ (ss ≠ [] → sep.intercalate ss ≠ "") := by
  induction ss with
  | nil => exact ⟨⟨by simp, by simp, by simp, by simp⟩, fun hne => absurd rfl hne⟩
  | cons s ss ih =>
    obtain ⟨hclean, hne⟩ := h s List.mem_cons_self
    obtain ⟨ihclean, ihne⟩ := ih fun t ht => h t (List.mem_cons_of_mem _ ht)
    cases ss with
    | nil => simpa using ⟨hclean, hne⟩
    | cons t ts =>
      rw [String.intercalate_cons_of_ne_nil (by simp)]
      exact ⟨hclean.between ihclean hne (ihne (by simp)) hsep, fun _ => by simp [hne]⟩

theorem solid_intercalate {sep : String} {ss : List String} (hsep : Solid sep) (h : ∀ s ∈ ss, Solid s) :
    Solid (sep.intercalate ss) := by
  induction ss with
  | nil => exact fun c hc => absurd hc (by simp)
  | cons s ss ih =>
    have ih := ih fun t ht => h t (List.mem_cons_of_mem _ ht)
    cases ss with
    | nil => simpa using h s List.mem_cons_self
    | cons t ts =>
      rw [String.intercalate_cons_of_ne_nil (by simp)]
      exact ((h s List.mem_cons_self).append hsep).append ih

/-! ### Numbers -/

theorem mem_toDigits {b n : Nat} {c : Char} (h : c ∈ Nat.toDigits b n) : ∃ d : Nat, c = d.digitChar := by
  have hcore : ∀ fuel n cs, c ∈ Nat.toDigitsCore b fuel n cs → (∃ d : Nat, c = d.digitChar) ∨ c ∈ cs := by
    intro fuel
    induction fuel with
    | zero => exact fun n cs hc => Or.inr hc
    | succ fuel ih =>
      intro n cs hc
      have hcons : c ∈ (n % b).digitChar :: cs → (∃ d : Nat, c = d.digitChar) ∨ c ∈ cs := fun hm =>
        (List.mem_cons.mp hm).imp (fun he => ⟨_, he⟩) id
      rw [Nat.toDigitsCore] at hc
      split at hc
      · exact hcons hc
      · exact (ih _ _ hc).elim Or.inl hcons
  exact (hcore _ _ _ h).resolve_right List.not_mem_nil

theorem solid_digitChar (d : Nat) :
    isSpace d.digitChar = false ∧ d.digitChar ≠ '\n' ∧ d.digitChar ≠ '#' := by
  refine ⟨?_, Nat.digitChar_ne '\n' (by decide), Nat.digitChar_ne '#' (by decide)⟩
  have hspace : d.digitChar ≠ ' ' := Nat.digitChar_ne ' ' (by decide)
  have htab : d.digitChar ≠ '\t' := Nat.digitChar_ne '\t' (by decide)
  have hreturn : d.digitChar ≠ '\r' := Nat.digitChar_ne '\r' (by decide)
  have hvtab : d.digitChar ≠ '\x0b' := Nat.digitChar_ne '\x0b' (by decide)
  have hfeed : d.digitChar ≠ '\x0c' := Nat.digitChar_ne '\x0c' (by decide)
  simp [isSpace, hspace, htab, hreturn, hvtab, hfeed]

theorem solid_toDigits (b n : Nat) : Solid (String.ofList (Nat.toDigits b n)) := by
  intro c hc
  rw [String.toList_ofList] at hc
  obtain ⟨d, rfl⟩ := mem_toDigits hc
  exact solid_digitChar d

/-- A printed number is solid. -/
theorem solid_nat (n : Nat) : Solid (toString n) := solid_toDigits 10 n

/-- A printed number with a sign is solid. -/
theorem solid_int (n : Int) : Solid (toString n) := by
  cases n with
  | ofNat n => exact solid_nat n
  | negSucc n => exact Solid.append (s := "-") (by decide) (solid_nat (n + 1))

theorem dropWhile_of_head {p : Char → Bool} {cs : List Char} (h : ∀ c ∈ cs.head?, p c = false) :
    cs.dropWhile p = cs := by
  cases cs with
  | nil => rfl
  | cons c cs => rw [List.dropWhile_cons, h c rfl]; rfl

/-- A text that neither starts nor ends in a blank is not trimmed. -/
theorem trim_clean {cs : List Char} (hhead : ∀ c ∈ cs.head?, isSpace c = false)
    (hlast : ∀ c ∈ cs.getLast?, isSpace c = false) : trim cs = cs := by
  unfold trim
  rw [dropWhile_of_head hhead, dropWhile_of_head (by rwa [List.head?_reverse]), List.reverse_reverse]

theorem trim_space {c : Char} {cs : List Char} (h : isSpace c = true) : trim (c :: cs) = trim cs := by
  unfold trim
  rw [List.dropWhile_cons, h]
  rfl

/-- A key: some characters, none of them special. -/
def KeyOk (k : String) : Prop :=
  k.toList ≠ [] ∧ ∀ c ∈ k.toList, isSpace c = false ∧ c ≠ '\n' ∧ c ≠ '#' ∧ c ≠ '=' ∧ c ≠ '['

instance (k : String) : Decidable (KeyOk k) := @instDecidableAnd _ _ inferInstance (List.decidableBAll _ k.toList)

/-- A key is found once the blank before the equals sign is trimmed. -/
theorem trim_key {k : String} (h : KeyOk k) : trim (k.toList ++ [' ']) = k.toList := by
  have hsolid : ∀ c ∈ k.toList, isSpace c = false := fun c hc => (h.2 c hc).1
  have hhead : ∀ c ∈ (k.toList ++ [' ']).head?, isSpace c = false := by
    intro c hc
    cases hk : k.toList with
    | nil => exact absurd hk h.1
    | cons d ds =>
      rw [hk] at hc hsolid
      exact hsolid c (List.mem_of_mem_head? hc)
  unfold trim
  rw [dropWhile_of_head hhead, List.reverse_append]
  change ((' ' :: k.toList.reverse).dropWhile isSpace).reverse = _
  rw [List.dropWhile_cons, if_pos (show isSpace ' ' = true from rfl),
    dropWhile_of_head fun c hc => hsolid c (List.mem_reverse.mp (List.mem_of_mem_head? hc)),
    List.reverse_reverse]

/-- A search stops at the first character that fails the test. -/
theorem takeWhile_stop {p : Char → Bool} {l r : List Char} {c : Char} (hl : ∀ x ∈ l, p x = true)
    (hc : p c = false) : (l ++ c :: r).takeWhile p = l := by
  rw [List.takeWhile_append_of_pos hl, List.takeWhile_cons_of_neg (by simp [hc]), List.append_nil]

/-- It leaves the text from there on. -/
theorem dropWhile_stop {p : Char → Bool} {l r : List Char} {c : Char} (hl : ∀ x ∈ l, p x = true)
    (hc : p c = false) : (l ++ c :: r).dropWhile p = c :: r := by
  rw [List.dropWhile_append_of_pos hl, List.dropWhile_cons_of_neg (by simp [hc])]

/-- A key holds none of the characters with a meaning of their own. -/
theorem KeyOk.not_mem {k : String} (hk : KeyOk k) {c : Char} (hc : c = '\n' ∨ c = '#' ∨ c = '=' ∨ c = '[') :
    c ∉ k.toList := by
  intro hm
  obtain ⟨-, h₁, h₂, h₃, h₄⟩ := hk.2 c hm
  tauto

/-- The characters of a `Key = Value` line. -/
theorem toList_entry (k v : String) :
    (k ++ " = " ++ v).toList = (k.toList ++ [' ']) ++ '=' :: ' ' :: v.toList := by
  simp [String.toList_append]

/-- A `Key = Value` line reads as its entry. -/
theorem parseLine_entry {k v : String} (hk : KeyOk k) (hv : Clean v) :
    parseLine (k ++ " = " ++ v).toList = some [.entry k v] := by
  have hplain : ∀ c ∈ (k ++ " = " ++ v).toList, (c ≠ '#' : Bool) = true := by
    intro c hc
    rw [toList_entry] at hc
    have hk' := hk.not_mem (Or.inr (Or.inl rfl))
    have hv' := hv.noComment
    rw [decide_eq_true_eq]
    rintro rfl
    simp_all
  have hstrip : (k ++ " = " ++ v).toList.takeWhile (· ≠ '#') = (k ++ " = " ++ v).toList :=
    List.takeWhile_eq_self_iff.mpr hplain
  have hleft : ∀ c ∈ k.toList ++ [' '], (c ≠ '=' : Bool) = true := by
    intro c hc
    rw [decide_eq_true_eq]
    rintro rfl
    have hk' := hk.not_mem (Or.inr (Or.inr (Or.inl rfl)))
    simp_all
  have hkey : trim ((k ++ " = " ++ v).toList.takeWhile (· ≠ '=')) = k.toList := by
    rw [toList_entry, takeWhile_stop hleft (by decide), trim_key hk]
  have hvalue : trim (((k ++ " = " ++ v).toList.dropWhile (· ≠ '=')).drop 1) = v.toList := by
    rw [toList_entry, dropWhile_stop hleft (by decide), List.drop_one, List.tail_cons, trim_space rfl,
      trim_clean hv.head hv.last]
  have hmem : '=' ∈ (k ++ " = " ++ v).toList := by
    rw [toList_entry]
    simp
  unfold parseLine
  simp only [hstrip, hkey, hvalue, if_pos hmem]
  split
  · rename_i cs hcs
    exact absurd (hcs ▸ List.mem_cons_self) (hk.not_mem (Or.inr (Or.inr (Or.inr rfl))))
  · rename_i hnil
    exact absurd hnil hk.1
  · rw [String.ofList_toList, String.ofList_toList]

/-- A clean value has one line. -/
theorem block_entry {k v : String} (hk : KeyOk k) (hv : Clean v) :
    Block (k ++ " = " ++ v ++ "\n") [(k ++ " = " ++ v).toList] := by
  have hbreak : '\n' ∉ (k ++ " = " ++ v).toList := by
    rw [toList_entry]
    simp [hk.not_mem (Or.inl rfl), hv.noBreak]
  have hline := Block.broken (k ++ " = " ++ v)
  rwa [lines, List.splitOn_eq_singleton hbreak] at hline

/-- A line that starts with a hash sign says nothing. -/
theorem parseLine_comment (cs : List Char) : parseLine ('#' :: cs) = some [] := rfl

/-- A text that says nothing when it is written in a comment: its lines after the first are blank or
    comments themselves. -/
def Quiet (s : String) : Prop := itemsOfLines (s.toList.splitOn '\n').tail = some []

instance (s : String) : Decidable (Quiet s) := inferInstanceAs (Decidable (_ = _))

namespace Lines

/-- A key and a clean value make a line with one entry. -/
theorem entry {k v : String} (hk : KeyOk k) (hv : Clean v) :
    Lines (k ++ " = " ++ v ++ "\n") [.entry k v] := by
  refine line (fun hm => ?_) (parseLine_entry hk hv)
  rw [toList_entry] at hm
  have hk' := hk.not_mem (Or.inl rfl)
  have hv' := hv.noBreak
  simp_all

/-- A comment begun by `label`. -/
theorem comment {label s : String} (hlabel : '\n' ∉ label.toList) (h : Quiet s) :
    Lines ("#" ++ label ++ s ++ "\n") [] := by
  refine block ?_
  have htext : ("#" ++ label ++ s).toList = ('#' :: label.toList) ++ s.toList := by
    simp [String.toList_append]
  unfold items
  rw [htext, splitOn_append_of_not_mem (by simpa using hlabel)]
  unfold Quiet at h
  cases hs : s.toList.splitOn '\n' with
  | nil => exact absurd hs (List.splitOn_ne_nil _ _)
  | cons l ls =>
    rw [hs, List.tail_cons] at h
    rw [List.modifyHead_cons, List.cons_append, itemsOfLines, parseLine_comment, h]
    rfl

end Lines

/-! ## Round trip -/

/-- A section, item by item. -/
def Section.items (s : Section) : List Item := .header s.name :: s.entries.map fun e => .entry e.1 e.2

/-- Entries at the front belong to what comes before the first section. -/
theorem sections_entries (es : List (String × String)) (is : List Item) :
    sections ((es.map fun e => .entry e.1 e.2) ++ is) = (es ++ (sections is).1, (sections is).2) := by
  induction es with
  | nil => rfl
  | cons e es ih => simp only [List.map_cons, List.cons_append, sections, ih]

/-- Written sections read back. -/
theorem sections_items (ss : List Section) : sections (ss.flatMap Section.items) = ([], ss) := by
  induction ss with
  | nil => rfl
  | cons s ss ih =>
    rw [List.flatMap_cons, Section.items, List.cons_append, sections, sections_entries, ih, List.append_nil]

/-- **Round trip.** A text of whole lines that reads as the items of some sections parses to them. -/
theorem parse_of_lines {s : String} {ss : List Section} (h : Lines s (ss.flatMap Section.items)) :
    parse s = some ss := by
  have hitems : items s.toList = some (ss.flatMap Section.items) := by
    simpa using h [] [] rfl
  unfold parse
  rw [hitems, Option.map_some, sections_items]

/-! ## Lists -/

/-- The entries of a comma-separated value. -/
def fields (value : String) : List String := (value.toList.splitOn ',').map fun cs => String.ofList (trim cs)

theorem intercalate_cons_cons (l m : List Char) (ls : List (List Char)) :
    [','].intercalate (l :: m :: ls) = l ++ ',' :: [','].intercalate (m :: ls) := by
  rw [List.intercalate_cons_of_ne_nil (by simp)]
  simp

theorem intercalate_cons_head (c : Char) (l : List Char) (ls : List (List Char)) :
    [','].intercalate ((c :: l) :: ls) = c :: [','].intercalate (l :: ls) := by
  cases ls with
  | nil => simp
  | cons m ms =>
    rw [intercalate_cons_cons, intercalate_cons_cons]
    rfl

/-- The first entry stands at the start of the value, each other behind a blank. -/
theorem toList_intercalate_comma (s : String) (ss : List String) :
    (", ".intercalate (s :: ss)).toList =
      [','].intercalate (s.toList :: ss.map fun t => ' ' :: t.toList) := by
  induction ss generalizing s with
  | nil => simp
  | cons t ts ih =>
    have hleft : (", ".intercalate (s :: t :: ts)).toList =
        s.toList ++ ',' :: ' ' :: (", ".intercalate (t :: ts)).toList := by
      rw [String.intercalate_cons_of_ne_nil (by simp)]
      simp [String.toList_append]
    rw [hleft, ih, List.map_cons, intercalate_cons_cons, intercalate_cons_head]

/-- A printed list is read back. -/
theorem fields_intercalate {ss : List String} (hne : ss ≠ []) (h : ∀ s ∈ ss, Clean s ∧ ',' ∉ s.toList) :
    fields (", ".intercalate ss) = ss := by
  have htrim : ∀ s ∈ ss, trim s.toList = s.toList := fun s hs => trim_clean (h s hs).1.head (h s hs).1.last
  cases ss with
  | nil => exact absurd rfl hne
  | cons s ss =>
    have hcomma : ∀ l ∈ s.toList :: ss.map (fun t => ' ' :: t.toList), ',' ∉ l := by
      intro l hl
      rcases List.mem_cons.mp hl with rfl | hl
      · exact (h s List.mem_cons_self).2
      · obtain ⟨t, ht, rfl⟩ := List.mem_map.mp hl
        simpa using (h t (List.mem_cons_of_mem _ ht)).2
    unfold fields
    rw [toList_intercalate_comma, List.splitOn_intercalate _ hcomma (by simp), List.map_cons, List.map_map,
      htrim s List.mem_cons_self, String.ofList_toList]
    congr 1
    conv_rhs => rw [← List.map_id ss]
    refine List.map_congr_left fun t ht => ?_
    simp [trim_space (show isSpace ' ' = true from rfl), htrim t (List.mem_cons_of_mem _ ht)]

end QuickConf
