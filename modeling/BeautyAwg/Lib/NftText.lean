import BeautyAwg.Lib.NetipText
import BeautyAwg.Lib.Nft

/-!
# `NftText`: a ruleset's text reads back

`readRuleset` reads a file of this fragment line by line, and each line word by word. A ruleset whose operands, ports
and targets can be read and whose quoted names are plain is read back from its text as it was (`readRuleset_text`), so
what is proved of a chain holds of the chain in the file.

## Contents
- **Words.** `words`, `IsWord`, `Says`.
- **Reading.** `readMatch`, `readStmt`, `readRule`; `readLine`, `readRuleset`.
- **Pieces.** One lemma each for operands, numbers, sets, names and targets.
- **Rules.** `Match.Plain`, `readMatch_words`, `readRule_words`.
- **Blocks.** `LinesSay`, `readChain_lines`, `readTable_lines`; `readRuleset_text`.
-/

namespace Nft

open Netip

/-! ## Words -/

/-- The words of a line. -/
def words (cs : List Char) : List String := ((cs.splitOn ' ').filter (· ≠ [])).map String.ofList

/-- One word: not empty, without a blank or a line break. -/
def IsWord (s : String) : Prop := s ≠ "" ∧ ∀ c ∈ s.toList, c ≠ ' ' ∧ c ≠ '\n'

instance (s : String) : Decidable (IsWord s) := @instDecidableAnd _ _ inferInstance (List.decidableBAll _ s.toList)

/-- The text stays in its line, and these are its words. -/
def Says (s : String) (ws : List String) : Prop := '\n' ∉ s.toList ∧ words s.toList = ws

instance (s : String) (ws : List String) : Decidable (Says s ws) := inferInstanceAs (Decidable (_ ∧ _))

/-- A blank between two texts is a border between their words. -/
theorem words_append (as bs : List Char) : words (as ++ ' ' :: bs) = words as ++ words bs := by
  unfold words
  rw [List.splitOn_append_cons_self, List.filter_append, List.map_append]

/-- A word says itself. -/
theorem IsWord.say {s : String} (h : IsWord s) : Says s [s] := by
  obtain ⟨hne, hchars⟩ := h
  refine ⟨fun hmem => (hchars _ hmem).2 rfl, ?_⟩
  have hblank : ' ' ∉ s.toList := fun hmem => (hchars _ hmem).1 rfl
  have htext : s.toList ≠ [] := fun h => hne (String.toList_eq_nil_iff.mp h)
  unfold words
  rw [List.splitOn_eq_singleton hblank]
  simp [htext]

theorem Says.empty : Says "" [] := by decide

/-- Two texts with a blank between them. -/
theorem Says.append {s t : String} {ws vs : List String} (hs : Says s ws) (ht : Says t vs) :
    Says (s ++ " " ++ t) (ws ++ vs) := by
  have htext : (s ++ " " ++ t).toList = s.toList ++ ' ' :: t.toList := by simp [String.toList_append]
  refine ⟨?_, ?_⟩
  · rw [htext]
    simp [hs.1, ht.1]
  · rw [htext, words_append, hs.2, ht.2]

/-! ## Reading -/

/-- An operand: a prefix if it has a slash, an address otherwise. -/
def readOperand (w : String) : Option Operand :=
  if '/' ∈ w.toList then (parsePrefix w).map .net else (parseAddr w.toList).map .addr

/-- The prefixes up to the closing brace, and what follows it. -/
def readSet : List String → Option (List Prefix × List String)
  | [] => none
  | w :: ws =>
    if w = "\x7d" then some ([], ws) else
    match parsePrefix (String.ofList (w.toList.filter (· ≠ ','))), readSet ws with
    | some p, some r => some (p :: r.1, r.2)
    | _, _ => none

/-- What stands between two quotes. -/
def readName (w : String) : Option String :=
  if w.toList.head? = some '"' ∧ w.toList.getLast? = some '"' then some (String.ofList w.toList.tail.dropLast)
  else none

/-- The state that a word names. -/
def readState (cs : List Char) : Option CtState :=
  [CtState.new, .established, .related, .untracked, .invalid].find? fun st => st.text.toList = cs

/-- States, with commas between them. -/
def readStates (w : String) : Option (List CtState) := (w.toList.splitOn ',').mapM readState

/-- A port, or a range of them. -/
def readPorts (w : String) : Option (Int × Option Int) :=
  match w.toList.splitOn '-' with
  | [a] => (parseDecimal 65535 a).map fun n => ((n : Int), none)
  | [a, b] => (parseDecimal 65535 a).bind fun n => (parseDecimal 65535 b).map fun m => ((n : Int), some (m : Int))
  | _ => none

/-- A `tcp option` as a match. -/
def readOption : List String → Option (Match × List String)
  | name :: size :: op :: n :: ws =>
    if name = "maxseg" ∧ size = "size" ∧ op = ">" then (parseDecimal 65535 n.toList).map fun n => (.maxsegAbove n, ws)
    else none
  | _ => none

/-- The match that the words begin with, and the words after it. -/
def readMatch : List String → Option (Match × List String)
  | a :: b :: w :: ws =>
    if a = "oifname" then
      if b = "!=" then (readName w).map fun s => (.oifnameNe s, ws) else (readName b).map fun s => (.oifname s, w :: ws)
    else if a = "ct" ∧ b = "state" then (readStates w).map fun ss => (.ctState ss, ws)
    else if a = "tcp" ∧ b = "flags" ∧ w = "syn" then some (.tcpSyn, ws)
    else if a = "tcp" ∧ b = "option" then readOption (w :: ws)
    else if a = "ip" ∧ b = "saddr" then (readOperand w).map fun o => (.saddr o, ws)
    else if a = "ip" ∧ b = "daddr" then
      if w = "!=" then (readSet (ws.drop 1)).map fun r => (.daddrNotIn r.1, r.2)
      else (readOperand w).map fun o => (.daddr o, ws)
    else if a = "ip" ∧ b = "protocol" then some (.ipProtocol w, ws)
    else if b = "dport" then (readPorts w).map fun r => (.dport a r.1 r.2, ws)
    else none
  | _ => none

/-- What a rule does, in words. -/
def readStmt (ws : List String) : Option Stmt :=
  if ws = ["accept"] then some .accept else
  if ws = ["masquerade"] then some .masquerade else
  if ws.take 2 = ["dnat", "to"] then ws[2]?.map .dnat else
  if ws.take 2 = ["redirect", "to"] then
    ws[2]?.bind fun w => (parseDecimal 65535 (w.toList.drop 1)).map fun n => .redirect n
  else if ws.take 5 = ["tcp", "option", "maxseg", "size", "set"] then
    ws[5]?.bind fun w => (parseDecimal 65535 w.toList).map .setMaxseg
  else none

/-- Matches as long as there are any, then a statement. -/
def readMatches : Nat → List String → Option Rule
  | 0, _ => none
  | n + 1, ws =>
    match readMatch ws with
    | some (m, rest) => (readMatches n rest).map fun r => { r with matchers := m :: r.matchers }
    | none => (readStmt ws).map fun s => ⟨[], s⟩

/-- A rule, in words. -/
def readRule (ws : List String) : Option Rule := readMatches ws.length ws

/-- The line below a chain's name: its type, hook and priority, and its policy. -/
def readHead : List String → Option (String × Policy)
  | [t, type, h, hook, p, prio, po, policy] =>
    if t = "type" ∧ h = "hook" ∧ p = "priority" ∧ po = "policy" ∧ prio.toList.getLast? = some ';' then
      let line := "type " ++ type ++ " hook " ++ hook ++ " priority " ++ String.ofList prio.toList.dropLast
      if policy = "drop;" then some (line, .drop) else if policy = "accept;" then some (line, .accept) else none
    else none
  | _ => none

/-- Where the reader stands: outside the tables, in a table, below the name of a chain, or in a chain. -/
inductive Place where
  | top
  | table (t : Table)
  | head (t : Table) (name : String)
  | chain (t : Table) (c : Chain)
  deriving DecidableEq, Repr

/-- The tables read so far, and the place. -/
structure Reading where
  tables : List Table
  place : Place
  deriving DecidableEq, Repr

/-- A line outside the tables: the `add` and `flush` lines change nothing that is read here. -/
def readTop (ts : List Table) (ws : List String) : Option Reading :=
  if ws.take 2 = ["add", "table"] ∨ ws.take 2 = ["flush", "table"] then some ⟨ts, .top⟩ else
  match ws with
  | [a, family, name, b] =>
    if a = "table" ∧ b = "\x7b" then some ⟨ts, .table ⟨family, name, []⟩⟩ else none
  | _ => none

/-- A line inside a table. -/
def readInner (ts : List Table) (t : Table) (ws : List String) : Option Reading :=
  if ws = ["\x7d"] then some ⟨ts ++ [t], .top⟩ else
  match ws with
  | [a, name, b] => if a = "chain" ∧ b = "\x7b" then some ⟨ts, .head t name⟩ else none
  | _ => none

/-- One more line of a table. -/
def readLine (r : Reading) (ws : List String) : Option Reading :=
  if ws = [] then some r else
  match r.place with
  | .top => readTop r.tables ws
  | .table t => readInner r.tables t ws
  | .head t name => (readHead ws).map fun h => ⟨r.tables, .chain t ⟨name, h.1, h.2, []⟩⟩
  | .chain t c =>
    if ws = ["\x7d"] then some ⟨r.tables, .table { t with chains := t.chains ++ [c] }⟩
    else (readRule ws).map fun rule => ⟨r.tables, .chain t { c with rules := c.rules ++ [rule] }⟩

/-- The words of each line of a file. -/
def fileWords (text : String) : List (List String) := (text.toList.splitOn '\n').map words

/-- The tables of a file. -/
def readRuleset (text : String) : Option (List Table) :=
  ((fileWords text).foldlM readLine ⟨[], .top⟩).bind fun r => if r.place = .top then some r.tables else none

example : readRule (words "ip saddr 10.8.0.2 ip daddr != \x7b 10.8.0.0/24, 10.9.0.0/16 \x7d accept".toList) =
    some ⟨[.saddr (.addr (.ofBytes 10 8 0 2)), .daddrNotIn [⟨.ofBytes 10 8 0 0, 24⟩, ⟨.ofBytes 10 9 0 0, 16⟩]],
      .accept⟩ := by decide +kernel

/-! ## Pieces -/

theorem blank_not_digit : ∀ d < 16, ' ' ≠ Nat.digitChar d := by decide
theorem break_not_digit : ∀ d < 16, '\n' ≠ Nat.digitChar d := by decide
theorem dash_not_digit : ∀ d < 16, '-' ≠ Nat.digitChar d := by decide
theorem separator_not_digit : ∀ d < 16, ',' ≠ Nat.digitChar d := by decide

/-- Two words written together are one word. -/
theorem isWord_append {s t : String} (hs : IsWord s) (ht : IsWord t) : IsWord (s ++ t) := by
  refine ⟨by simp [hs.1], fun c hc => ?_⟩
  rw [String.toList_append] at hc
  exact (List.mem_append.mp hc).elim (hs.2 c) (ht.2 c)

theorem mem_intercalate {sep x : Char} {ls : List (List Char)} (h : x ∈ [sep].intercalate ls) :
    x = sep ∨ ∃ l ∈ ls, x ∈ l := by
  induction ls with
  | nil => exact absurd h (by simp [List.intercalate])
  | cons l ls ih =>
    cases ls with
    | nil => exact .inr ⟨l, List.mem_cons_self, by simpa [List.intercalate] using h⟩
    | cons m ms =>
      rw [List.intercalate_cons_of_ne_nil (by simp), List.mem_append, List.mem_append, List.mem_singleton] at h
      rcases h with (h | h) | h
      · exact .inr ⟨l, List.mem_cons_self, h⟩
      · exact .inl h
      · exact (ih h).imp id fun hl => hl.imp fun _ hm => ⟨List.mem_cons_of_mem _ hm.1, hm.2⟩

/-- A character of a text is its separator or in one of its fields. -/
theorem mem_splitOn {s x : Char} {cs : List Char} (h : x ∈ cs) : x = s ∨ ∃ l ∈ cs.splitOn s, x ∈ l := by
  have hjoin : [s].intercalate (cs.splitOn s) = cs := List.intercalate_splitOn s
  exact mem_intercalate (hjoin.symm ▸ h)

section Numbers

/-- A number is printed in its decimal digits. -/
theorem toList_nat (n : Nat) : (toString n).toList = Nat.toDigits 10 n := Nat.toList_repr

theorem isWord_nat (n : Nat) : IsWord (toString n) := by
  refine ⟨fun h => ?_, fun c hc => ⟨?_, ?_⟩⟩
  · have hdigits := congrArg String.toList h
    rw [toList_nat] at hdigits
    exact Nat.toDigits_ne_nil hdigits
  · rintro rfl
    rw [toList_nat] at hc
    exact not_mem_toDigits (by omega) (by omega) blank_not_digit hc
  · rintro rfl
    rw [toList_nat] at hc
    exact not_mem_toDigits (by omega) (by omega) break_not_digit hc

/-- A number that stands in a 16-bit field. -/
theorem port_cases {n : Int} (h : 0 ≤ n ∧ n ≤ 65535) : ∃ k : Nat, n = k ∧ k ≤ 65535 ∧ toString n = toString k := by
  obtain ⟨k, rfl⟩ := Int.eq_ofNat_of_zero_le h.1
  exact ⟨k, rfl, by omega, rfl⟩

/-- A single port is read back. -/
theorem readPorts_port {n : Nat} (h : n ≤ 65535) : readPorts (toString n) = some ((n : Int), none) := by
  have hdash : '-' ∉ Nat.toDigits 10 n := not_mem_toDigits (by omega) (by omega) dash_not_digit
  unfold readPorts
  rw [toList_nat, List.splitOn_eq_singleton hdash]
  simp [parseDecimal_toDigits h]

/-- A range of ports is read back. -/
theorem readPorts_range {n m : Nat} (hn : n ≤ 65535) (hm : m ≤ 65535) :
    readPorts (toString n ++ "-" ++ toString m) = some ((n : Int), some (m : Int)) := by
  have hdash : ∀ k, '-' ∉ Nat.toDigits 10 k := fun k => not_mem_toDigits (by omega) (by omega) dash_not_digit
  have htext : (toString n ++ "-" ++ toString m).toList = Nat.toDigits 10 n ++ '-' :: Nat.toDigits 10 m := by
    rw [String.toList_append, String.toList_append, toList_nat, toList_nat]
    simp
  unfold readPorts
  rw [htext, List.splitOn_append_cons_self, List.splitOn_eq_singleton (hdash n), List.splitOn_eq_singleton (hdash m)]
  simp [parseDecimal_toDigits hn, parseDecimal_toDigits hm]

end Numbers

/-! ### Operands -/

theorem isWord_text4 (a : BitVec 32) : IsWord (Addr.text4 a) := by
  refine ⟨fun h => ?_, fun c hc => ⟨?_, ?_⟩⟩
  · exact absurd (dot_mem_text4 a) (by simp [h])
  · rintro rfl
    exact not_mem_text4 blank_not_digit (by decide) hc
  · rintro rfl
    exact not_mem_text4 break_not_digit (by decide) hc

/-- The text of an IPv4 prefix. -/
theorem prefix_text4 {p : Prefix} (h : p.is4 = true) :
    ∃ a, p.addr = .v4 a ∧ p.isValid = true ∧ p.text = Addr.text4 a ++ "/" ++ toString p.bits := by
  obtain ⟨haddr, hbits⟩ := (Bool.and_eq_true _ _).mp h
  obtain ⟨a, ha⟩ := Addr.is4_iff.mp haddr
  have hvalid : p.isValid = true := by
    simp only [Prefix.isValid, ha, Addr.isValid, Addr.bitLen, Bool.true_and]
    exact hbits
  refine ⟨a, ha, hvalid, ?_⟩
  unfold Prefix.text
  rw [if_pos hvalid, ha]
  rfl

/-- An IPv4 prefix is one word. -/
theorem isWord_prefix {p : Prefix} (h : p.is4 = true) : IsWord p.text := by
  obtain ⟨a, -, -, htext⟩ := prefix_text4 h
  rw [htext]
  exact isWord_append (isWord_append (isWord_text4 a) (by decide)) (isWord_nat _)

/-- An IPv4 operand is one word. -/
theorem isWord_operand {o : Operand} (h : o.is4 = true) : IsWord o.text := by
  cases o with
  | addr a =>
    obtain ⟨x, rfl⟩ := Addr.is4_iff.mp h
    exact isWord_text4 x
  | net p => exact isWord_prefix h

/-- An IPv4 operand is read back from its text. -/
theorem readOperand_text {o : Operand} (h : o.is4 = true) : readOperand o.text = some o := by
  cases o with
  | addr a =>
    obtain ⟨x, rfl⟩ := Addr.is4_iff.mp h
    have hslash : '/' ∉ (Addr.text4 x).toList := not_mem_text4 slash_not_digit (by decide)
    have hparse := parseAddr_text4 x
    show readOperand (Addr.text4 x) = _
    unfold readOperand
    rw [if_neg hslash, hparse]
    rfl
  | net p =>
    obtain ⟨a, -, hvalid, htext⟩ := prefix_text4 h
    have hslash : '/' ∈ p.text.toList := by
      rw [htext]
      simp [String.toList_append]
    show readOperand p.text = _
    unfold readOperand
    rw [if_pos hslash, parsePrefix_text hvalid]
    rfl

theorem ne_not_operand {o : Operand} (h : o.is4 = true) : o.text ≠ "!=" := by
  intro htext
  have hread := readOperand_text h
  have hnone : readOperand "!=" = none := by decide
  rw [htext, hnone] at hread
  exact absurd hread (by simp)

/-! ### Sets -/

/-- The words of a set: every element but the last with a comma. -/
def setWords : List String → List String
  | [] => []
  | [w] => [w]
  | w :: v :: ws => (w ++ ",") :: setWords (v :: ws)

/-- A set's elements are said with the comma at the end of each but the last. -/
theorem says_set {ws : List String} (h : ∀ w ∈ ws, IsWord w) : Says (", ".intercalate ws) (setWords ws) := by
  induction ws with
  | nil => exact .empty
  | cons w ws ih =>
    have hw := h w List.mem_cons_self
    cases ws with
    | nil => simpa [setWords] using hw.say
    | cons v ws =>
      have hcomma : IsWord (w ++ ",") := isWord_append hw (by decide)
      have htext : ", ".intercalate (w :: v :: ws) = w ++ "," ++ " " ++ ", ".intercalate (v :: ws) := by
        rw [String.intercalate_cons_of_ne_nil (by simp)]
        apply String.toList_injective
        simp [String.toList_append]
      rw [htext]
      exact hcomma.say.append (ih fun x hx => h x (List.mem_cons_of_mem _ hx))

/-- The comma after an element is not part of it. -/
theorem element_text {p : Prefix} (h : p.is4 = true) {tail : String} (htail : tail = "" ∨ tail = ",") :
    p.text ++ tail ≠ "\x7d" ∧ parsePrefix (String.ofList ((p.text ++ tail).toList.filter (· ≠ ','))) = some p := by
  obtain ⟨a, -, hvalid, htext⟩ := prefix_text4 h
  have hcomma : ∀ c ∈ p.text.toList, c ≠ ',' := by
    rintro c hc rfl
    rw [htext, String.toList_append, String.toList_append, toList_nat] at hc
    rcases List.mem_append.mp hc with hc | hc
    · rcases List.mem_append.mp hc with hc | hc
      · exact not_mem_text4 separator_not_digit (by decide) hc
      · exact absurd hc (by decide)
    · exact not_mem_toDigits (by omega) (by omega) separator_not_digit hc
  have hslash : '/' ∈ p.text.toList := by
    rw [htext]
    simp [String.toList_append]
  constructor
  · intro hbrace
    have hmem : '/' ∈ (p.text ++ tail).toList := by simp [String.toList_append, hslash]
    rw [hbrace] at hmem
    exact absurd hmem (by decide)
  · have hfilter : (p.text ++ tail).toList.filter (· ≠ ',') = p.text.toList := by
      rw [String.toList_append, List.filter_append, List.filter_eq_self.mpr fun c hc => by simp [hcomma c hc]]
      rcases htail with rfl | rfl <;> simp
    rw [hfilter, String.ofList_toList, parsePrefix_text hvalid]

/-- A set of prefixes is read back up to its closing brace. -/
theorem readSet_words {ps : List Prefix} (h : ∀ p ∈ ps, p.is4 = true) (rest : List String) :
    readSet (setWords (ps.map Prefix.text) ++ "\x7d" :: rest) = some (ps, rest) := by
  induction ps with
  | nil => rfl
  | cons p ps ih =>
    have hp := h p List.mem_cons_self
    have ih := ih fun q hq => h q (List.mem_cons_of_mem _ hq)
    cases ps with
    | nil =>
      obtain ⟨hne, hparse⟩ := element_text hp (.inl rfl)
      rw [String.append_empty] at hne hparse
      simp only [List.map_cons, List.map_nil, setWords, List.cons_append, List.nil_append] at ih ⊢
      rw [readSet, if_neg hne, hparse, ih]
    | cons q ps =>
      obtain ⟨hne, hparse⟩ := element_text hp (.inr rfl)
      simp only [List.map_cons, setWords, List.cons_append] at ih ⊢
      rw [readSet, if_neg hne, hparse, ih]

/-! ### Names and states -/

/-- A name that is quoted as it stands, and is one word. -/
def PlainName (s : String) : Prop :=
  ∀ c ∈ s.toList, c ≠ '"' ∧ c ≠ '\\' ∧ c ≠ '\n' ∧ c ≠ '\t' ∧ c ≠ '\r' ∧ c ≠ ' '

instance (s : String) : Decidable (PlainName s) := List.decidableBAll _ _

/-- A plain name is printed without an escape. -/
theorem escape_plain {s : String} (h : PlainName s) : escape s = s := by
  apply String.toList_injective
  unfold escape
  rw [String.toList_join, List.flatMap_map]
  have hchar : ∀ c ∈ s.toList, (if c = '"' then "\\\"" else if c = '\\' then "\\\\" else if c = '\n' then "\\n" else
      if c = '\t' then "\\t" else if c = '\r' then "\\r" else c.toString).toList = [c] := by
    intro c hc
    obtain ⟨h₁, h₂, h₃, h₄, h₅, -⟩ := h c hc
    rw [if_neg h₁, if_neg h₂, if_neg h₃, if_neg h₄, if_neg h₅]
    simp
  rw [List.flatMap_def, List.map_congr_left hchar]
  simp [← List.flatMap_def]

theorem toList_quote {s : String} (h : PlainName s) : (quote s).toList = '"' :: (s.toList ++ ['"']) := by
  unfold quote
  rw [escape_plain h]
  simp [String.toList_append]

theorem isWord_quote {s : String} (h : PlainName s) : IsWord (quote s) := by
  refine ⟨fun he => ?_, fun c hc => ?_⟩
  · exact absurd (congrArg String.toList he) (by simp [toList_quote h])
  · rw [toList_quote h] at hc
    rcases List.mem_cons.mp hc with rfl | hc
    · decide
    · rcases List.mem_append.mp hc with hc | hc
      · exact ⟨(h c hc).2.2.2.2.2, (h c hc).2.2.1⟩
      · rw [List.mem_singleton.mp hc]
        decide

/-- A plain interface name is read back from between its quotes. -/
theorem readName_quote {s : String} (h : PlainName s) : readName (quote s) = some s := by
  have hlast : ('"' :: (s.toList ++ ['"'])).getLast? = some '"' := by
    rw [← List.cons_append]
    exact List.getLast?_concat
  unfold readName
  rw [toList_quote h, if_pos ⟨rfl, hlast⟩]
  simp

theorem ne_not_quote {s : String} (h : PlainName s) : quote s ≠ "!=" := by
  intro he
  have hhead := congrArg (fun t : String => t.toList.head?) he
  simp only [toList_quote h] at hhead
  exact absurd (Option.some.inj hhead) (by decide)

theorem readState_text (st : CtState) : readState st.text.toList = some st := by
  cases st <;> decide

theorem toList_states (ss : List CtState) : (",".intercalate (ss.map CtState.text)).toList =
    [','].intercalate (ss.map fun st => st.text.toList) := by
  rw [String.toList_intercalate, List.map_map]
  rfl

theorem isWord_states {ss : List CtState} (hne : ss ≠ []) : IsWord (",".intercalate (ss.map CtState.text)) := by
  have hstate : ∀ st : CtState, IsWord st.text := by
    intro st
    cases st <;> decide
  refine ⟨fun he => ?_, fun c hc => ?_⟩
  · cases ss with
    | nil => exact hne rfl
    | cons st ss =>
      have hlist := congrArg String.toList he
      cases ss with
      | nil => cases st <;> exact absurd he (by decide)
      | cons st' ss =>
        rw [toList_states, List.map_cons, List.intercalate_cons_of_ne_nil (by simp)] at hlist
        simp at hlist
  · rw [toList_states] at hc
    rcases mem_intercalate hc with rfl | ⟨l, hl, hc⟩
    · decide
    · obtain ⟨st, -, rfl⟩ := List.mem_map.mp hl
      exact (hstate st).2 c hc

/-- A list of connection states is read back from between its commas. -/
theorem readStates_text {ss : List CtState} (hne : ss ≠ []) :
    readStates (",".intercalate (ss.map CtState.text)) = some ss := by
  have hcomma : ∀ l ∈ ss.map fun st => st.text.toList, ',' ∉ l := by
    intro l hl
    obtain ⟨st, -, rfl⟩ := List.mem_map.mp hl
    cases st <;> decide
  unfold readStates
  rw [toList_states, List.splitOn_intercalate ',' hcomma (by simpa using hne), List.mapM_map]
  clear hcomma hne
  induction ss with
  | nil => rfl
  | cons st ss ih =>
    rw [List.mapM_cons, ih]
    simp [readState_text]

/-! ### Targets -/

theorem isDigit_of_parseDecimal {max n : Nat} {cs : List Char} (h : parseDecimal max cs = some n) :
    ∀ c ∈ cs, c.isDigit = true := by
  unfold parseDecimal at h
  split at h
  · exact absurd h (by simp)
  · rename_i hcond
    simp only [not_or, not_not] at hcond
    exact List.all_eq_true.mp hcond.2.1

/-- A list that was mapped as a whole was mapped in each element. -/
theorem exists_of_mapM {α β : Type} {f : α → Option β} {l : List α} {bs : List β} (h : l.mapM f = some bs) :
    ∀ a ∈ l, ∃ b, f a = some b := by
  induction l generalizing bs with
  | nil => exact fun _ ha => absurd ha List.not_mem_nil
  | cons x l ih =>
    rw [List.mapM_cons] at h
    obtain ⟨y, hy, h⟩ := Option.bind_eq_some_iff.mp h
    obtain ⟨ys, hys, -⟩ := Option.bind_eq_some_iff.mp h
    exact List.forall_mem_cons.mpr ⟨⟨y, hy⟩, ih hys⟩

/-- An address that reads has digits and dots only. -/
theorem chars_of_parseAddr4 {cs : List Char} (h : (parseAddr4 cs).isSome = true) :
    ∀ c ∈ cs, c = '.' ∨ c.isDigit = true := by
  obtain ⟨a, ha⟩ := Option.isSome_iff_exists.mp h
  unfold parseAddr4 at ha
  obtain ⟨fields, hfields, -⟩ := Option.bind_eq_some_iff.mp ha
  have hdigits : ∀ l ∈ cs.splitOn '.', ∀ c ∈ l, c.isDigit = true := by
    intro l hl
    obtain ⟨n, hn⟩ := exists_of_mapM hfields l hl
    exact isDigit_of_parseDecimal hn
  intro c hc
  exact (mem_splitOn hc).imp id fun hl => hl.elim fun l hm => hdigits l hm.1 c hm.2

/-- A target that reads is one word. -/
theorem isWord_target {target : String} (h : (Stmt.dnat target).reads = true) : IsWord target := by
  have hchars : ∀ c ∈ target.toList, c = ':' ∨ c = '.' ∨ c.isDigit = true := by
    intro c hc
    refine (mem_splitOn (s := ':') hc).imp id fun hl => ?_
    obtain ⟨l, hl, hc⟩ := hl
    simp only [Stmt.reads] at h
    split at h
    · rename_i a hsplit
      rw [hsplit, List.mem_singleton] at hl
      exact chars_of_parseAddr4 h c (hl ▸ hc)
    · rename_i a port hsplit
      obtain ⟨haddr, hport⟩ := (Bool.and_eq_true _ _).mp h
      rw [hsplit] at hl
      rcases List.mem_cons.mp hl with rfl | hl
      · exact chars_of_parseAddr4 haddr c hc
      · obtain ⟨n, hn⟩ := Option.isSome_iff_exists.mp hport
        rw [List.mem_singleton.mp hl] at hc
        exact .inr (isDigit_of_parseDecimal hn c hc)
    · exact absurd h (by simp)
  refine ⟨?_, fun c hc => ⟨?_, ?_⟩⟩
  · rintro rfl
    exact absurd h (by decide)
  · rintro rfl
    exact absurd (hchars _ hc) (by decide)
  · rintro rfl
    exact absurd (hchars _ hc) (by decide)

/-! ## Rules -/

/-- What the fragment's reader takes beyond what `nft` does: names without escapes, a state to match, 16-bit sizes. -/
def Match.Plain : Match → Prop
  | oifname s | oifnameNe s => PlainName s
  | ctState ss => ss ≠ []
  | maxsegAbove n => n ≤ 65535
  | _ => True

/-- A number in the statement fits where it is kept. -/
def Stmt.Plain : Stmt → Prop
  | setMaxseg n => n ≤ 65535
  | _ => True

/-- Every part of the rule can be told from its words. -/
structure Rule.Plain (r : Rule) : Prop where
  matchers : ∀ m ∈ r.matchers, m.Plain
  stmt : r.stmt.Plain

/-- What a rule asks for, in words. -/
def Match.words : Match → List String
  | saddr o => ["ip", "saddr", o.text]
  | daddr o => ["ip", "daddr", o.text]
  | daddrNotIn ps => ["ip", "daddr", "!=", "\x7b"] ++ setWords (ps.map Prefix.text) ++ ["\x7d"]
  | oifname s => ["oifname", quote s]
  | oifnameNe s => ["oifname", "!=", quote s]
  | ctState ss => ["ct", "state", ",".intercalate (ss.map CtState.text)]
  | tcpSyn => ["tcp", "flags", "syn"]
  | maxsegAbove n => ["tcp", "option", "maxseg", "size", ">", toString n]
  | dport proto lo none => [proto, "dport", toString lo]
  | dport proto lo (some hi) => [proto, "dport", toString lo ++ "-" ++ toString hi]
  | ipProtocol proto => ["ip", "protocol", proto]

/-- What a rule does, in words. -/
def Stmt.words : Stmt → List String
  | accept => ["accept"]
  | setMaxseg n => ["tcp", "option", "maxseg", "size", "set", toString n]
  | dnat target => ["dnat", "to", target]
  | redirect port => ["redirect", "to", ":" ++ toString port]
  | masquerade => ["masquerade"]

/-- A rule in words. -/
def Rule.words (r : Rule) : List String := r.matchers.flatMap Match.words ++ r.stmt.words

/-- Keywords, with the blank after them, and what follows. -/
theorem says_key {k t : String} {u v : List String} (hblank : k.toList.getLast? = some ' ') (hkey : Says k u)
    (ht : Says t v) : Says (k ++ t) (u ++ v) := by
  obtain ⟨cs, hcs⟩ := List.getLast?_eq_some_iff.mp hblank
  obtain ⟨hline, hwords⟩ := hkey
  rw [hcs, List.mem_append, not_or] at hline
  rw [hcs, words_append, show words [] = [] from rfl, List.append_nil] at hwords
  have htext : (k ++ t).toList = cs ++ ' ' :: t.toList := by simp [String.toList_append, hcs]
  refine ⟨?_, ?_⟩
  · rw [htext]
    simp [ht.1, hline.1]
  · rw [htext, words_append, hwords, ht.2]

/-- The protocols with a name are TCP and UDP. -/
theorem named_cases {proto : String} (h : (L4.named proto).isSome = true) : proto = "tcp" ∨ proto = "udp" := by
  unfold L4.named at h
  split at h
  · exact .inl ‹_›
  · split at h
    · exact .inr ‹_›
    · exact absurd h (by simp)

theorem isWord_named {proto : String} (h : (L4.named proto).isSome = true) : IsWord proto := by
  rcases named_cases h with rfl | rfl <;> decide

/-- A match that the parser reads says the words it is read from. -/
theorem says_match {m : Match} (hreads : m.reads = true) (hplain : m.Plain) : Says m.text m.words := by
  cases m with
  | saddr o => exact says_key (k := "ip saddr ") (u := ["ip", "saddr"]) rfl (by decide) (isWord_operand hreads).say
  | daddr o => exact says_key (k := "ip daddr ") (u := ["ip", "daddr"]) rfl (by decide) (isWord_operand hreads).say
  | daddrNotIn ps =>
    have hset : Says (", ".intercalate (ps.map Prefix.text)) (setWords (ps.map Prefix.text)) := by
      refine says_set fun w hw => ?_
      obtain ⟨p, hp, rfl⟩ := List.mem_map.mp hw
      exact isWord_prefix (List.all_eq_true.mp hreads p hp)
    have hclosed : Says (", ".intercalate (ps.map Prefix.text) ++ " " ++ "\x7d")
        (setWords (ps.map Prefix.text) ++ ["\x7d"]) := hset.append (by decide)
    have h := says_key (k := "ip daddr != \x7b ") (u := ["ip", "daddr", "!=", "\x7b"]) rfl (by decide) hclosed
    have hclose : (" \x7d" : String) = " " ++ "\x7d" := by decide
    show Says ("ip daddr != \x7b " ++ ", ".intercalate (ps.map Prefix.text) ++ " \x7d") _
    simp only [String.append_assoc] at h
    rw [hclose, String.append_assoc]
    exact h
  | oifname s => exact says_key (k := "oifname ") (u := ["oifname"]) rfl (by decide) (isWord_quote hplain).say
  | oifnameNe s =>
    exact says_key (k := "oifname != ") (u := ["oifname", "!="]) rfl (by decide) (isWord_quote hplain).say
  | ctState ss => exact says_key (k := "ct state ") (u := ["ct", "state"]) rfl (by decide) (isWord_states hplain).say
  | tcpSyn => decide
  | maxsegAbove n =>
    exact says_key (k := "tcp option maxseg size > ") (u := ["tcp", "option", "maxseg", "size", ">"]) rfl (by decide)
      (isWord_nat n).say
  | dport proto lo hi =>
    simp only [Match.reads, Bool.and_eq_true, decide_eq_true_eq] at hreads
    obtain ⟨⟨hproto, hlo⟩, hhi⟩ := hreads
    obtain ⟨k, -, -, hlotext⟩ := port_cases hlo
    -- a port and a range are one word each, after the protocol's name
    have hport : ∀ {w}, IsWord w → Says (proto ++ " dport " ++ w) [proto, "dport", w] := by
      intro w hw
      rcases named_cases hproto with rfl | rfl
      · exact says_key (k := "tcp dport ") (u := ["tcp", "dport"]) rfl (by decide) hw.say
      · exact says_key (k := "udp dport ") (u := ["udp", "dport"]) rfl (by decide) hw.say
    cases hi with
    | none => exact hport (hlotext ▸ isWord_nat k)
    | some hi =>
      simp only [Option.all_some, decide_eq_true_eq] at hhi
      obtain ⟨j, -, -, hhitext⟩ := port_cases (n := hi) (by omega)
      have hword : IsWord (toString lo ++ "-" ++ toString hi) := by
        rw [hlotext, hhitext]
        exact isWord_append (isWord_append (isWord_nat k) (by decide)) (isWord_nat j)
      have htext : proto ++ " dport " ++ (toString lo ++ "-" ++ toString hi) =
          proto ++ " dport " ++ toString lo ++ "-" ++ toString hi := by
        simp only [String.append_assoc]
      have h := hport hword
      rw [htext] at h
      exact h
  | ipProtocol proto =>
    exact says_key (k := "ip protocol ") (u := ["ip", "protocol"]) rfl (by decide) (isWord_named hreads).say

/-- So does a statement. -/
theorem says_stmt {st : Stmt} (hreads : st.reads = true) (hfits : st.fits = true) : Says st.text st.words := by
  cases st with
  | accept => decide
  | setMaxseg n =>
    exact says_key (k := "tcp option maxseg size set ") (u := ["tcp", "option", "maxseg", "size", "set"]) rfl
      (by decide) (isWord_nat n).say
  | dnat target => exact says_key (k := "dnat to ") (u := ["dnat", "to"]) rfl (by decide) (isWord_target hreads).say
  | redirect port =>
    obtain ⟨k, -, -, htext⟩ := port_cases (of_decide_eq_true hfits)
    have hword : IsWord (":" ++ toString port) := by
      rw [htext]
      exact isWord_append (by decide) (isWord_nat k)
    have h := says_key (k := "redirect to ") (u := ["redirect", "to"]) rfl (by decide) hword.say
    have hcolon : ("redirect to :" : String) = "redirect to " ++ ":" := by decide
    show Says ("redirect to :" ++ toString port) _
    rw [hcolon, String.append_assoc]
    exact h
  | masquerade => decide

/-- A rule's line has the words of its matches and of its statement. -/
theorem says_rule {r : Rule} (hloads : r.loads = true) (hplain : r.Plain) : Says r.text r.words := by
  obtain ⟨hreads, hfits⟩ := (Bool.and_eq_true _ _).mp hloads
  obtain ⟨hmatchers, hstmt⟩ := (Bool.and_eq_true _ _).mp hreads
  obtain ⟨-, hstmt'⟩ := (Bool.and_eq_true _ _).mp hfits
  have hlast := says_stmt hstmt hstmt'
  have hall : ∀ m ∈ r.matchers, Says m.text m.words := fun m hm =>
    says_match (List.all_eq_true.mp hmatchers m hm) (hplain.matchers m hm)
  unfold Rule.text Rule.words
  generalize r.matchers = ms at hall
  induction ms with
  | nil => simpa using hlast
  | cons m ms ih =>
    have ih := ih fun x hx => hall x (List.mem_cons_of_mem _ hx)
    rw [List.map_cons, List.cons_append, String.intercalate_cons_of_ne_nil (by simp), List.flatMap_cons,
      List.append_assoc]
    exact (hall m List.mem_cons_self).append ih

/-- **Matches.** The words of a match, with others after them, read as the match. -/
theorem readMatch_words {m : Match} (hreads : m.reads = true) (hplain : m.Plain) {rest : List String}
    (hrest : rest ≠ []) : readMatch (m.words ++ rest) = some (m, rest) := by
  cases m with
  | saddr o => simp [Match.words, readMatch, readOperand_text hreads]
  | daddr o => simp [Match.words, readMatch, ne_not_operand hreads, readOperand_text hreads]
  | daddrNotIn ps =>
    have hset := readSet_words (List.all_eq_true.mp hreads) rest
    simp [Match.words, readMatch, hset]
  | oifname s =>
    -- what comes after the name tells the two forms of `oifname` apart
    obtain ⟨w, ws, rfl⟩ := List.exists_cons_of_ne_nil hrest
    simp [Match.words, readMatch, ne_not_quote hplain, readName_quote hplain]
  | oifnameNe s => simp [Match.words, readMatch, readName_quote hplain]
  | ctState ss => simp [Match.words, readMatch, readStates_text hplain]
  | tcpSyn => simp [Match.words, readMatch]
  | maxsegAbove n => simp [Match.words, readMatch, readOption, parseDecimal_toDigits hplain]
  | dport proto lo hi =>
    simp only [Match.reads, Bool.and_eq_true, decide_eq_true_eq] at hreads
    obtain ⟨⟨hproto, hlo⟩, hhi⟩ := hreads
    obtain ⟨k, rfl, hk, htext⟩ := port_cases hlo
    have hread : ∀ w, readMatch (proto :: "dport" :: w :: rest) =
        (readPorts w).map fun r => (.dport proto r.1 r.2, rest) := by
      intro w
      rcases named_cases hproto with rfl | rfl <;> simp [readMatch]
    cases hi with
    | none =>
      show readMatch (proto :: "dport" :: toString (k : Int) :: rest) = _
      rw [hread, htext, readPorts_port hk]
      rfl
    | some hi =>
      simp only [Option.all_some, decide_eq_true_eq] at hhi
      obtain ⟨j, rfl, hj, htext'⟩ := port_cases (n := hi) (by omega)
      show readMatch (proto :: "dport" :: (toString (k : Int) ++ "-" ++ toString (j : Int)) :: rest) = _
      rw [hread, htext, htext', readPorts_range hk hj]
      rfl
  | ipProtocol proto => simp [Match.words, readMatch]

/-- A statement's words are read as that statement, and as no match. -/
theorem readStmt_words {st : Stmt} (hfits : st.fits = true) (hplain : st.Plain) :
    readMatch st.words = none ∧ readStmt st.words = some st := by
  cases st with
  | accept => decide
  | setMaxseg n =>
    refine ⟨by simp [Stmt.words, readMatch, readOption], ?_⟩
    simp [Stmt.words, readStmt, parseDecimal_toDigits hplain]
  | dnat target => simp [Stmt.words, readMatch, readStmt]
  | redirect port =>
    obtain ⟨k, rfl, hk, htext⟩ := port_cases (of_decide_eq_true hfits)
    refine ⟨by simp [Stmt.words, readMatch], ?_⟩
    show readStmt ["redirect", "to", ":" ++ toString (k : Int)] = _
    rw [htext]
    simp only [readStmt]
    simp [parseDecimal_toDigits hk]
  | masquerade => decide

theorem words_ne_nil (m : Match) : m.words ≠ [] := by
  cases m with
  | dport proto lo hi => cases hi <;> simp [Match.words]
  | _ => simp [Match.words]

theorem stmt_words_ne_nil (st : Stmt) : st.words ≠ [] := by
  cases st <;> simp [Stmt.words]

/-- **Rules.** A rule's words read as the rule. -/
theorem readRule_words {r : Rule} (hloads : r.loads = true) (hplain : r.Plain) : readRule r.words = some r := by
  obtain ⟨hreads, hfits⟩ := (Bool.and_eq_true _ _).mp hloads
  obtain ⟨hmatchers, -⟩ := (Bool.and_eq_true _ _).mp hreads
  obtain ⟨-, hstmt⟩ := (Bool.and_eq_true _ _).mp hfits
  obtain ⟨hnone, hread⟩ := readStmt_words hstmt hplain.stmt
  -- one step of fuel for each match, and one for the statement
  have hmatches : ∀ ms : List Match, (∀ m ∈ ms, m ∈ r.matchers) → ∀ n, ms.length < n →
      readMatches n (ms.flatMap Match.words ++ r.stmt.words) = some ⟨ms, r.stmt⟩ := by
    intro ms
    induction ms with
    | nil =>
      intro _ n hn
      obtain ⟨k, rfl⟩ := Nat.exists_eq_add_one_of_ne_zero (Nat.ne_of_gt hn)
      simp [readMatches, hnone, hread]
    | cons m ms ih =>
      intro hmem n hn
      obtain ⟨k, rfl⟩ := Nat.exists_eq_add_one_of_ne_zero (Nat.ne_of_gt (Nat.lt_of_le_of_lt (Nat.zero_le _) hn))
      have hm := hmem m List.mem_cons_self
      have hrest : ms.flatMap Match.words ++ r.stmt.words ≠ [] := by simp [stmt_words_ne_nil]
      have hone := readMatch_words (List.all_eq_true.mp hmatchers m hm) (hplain.matchers m hm) hrest
      have ih := ih (fun x hx => hmem x (List.mem_cons_of_mem _ hx)) k (by simpa using hn)
      rw [List.flatMap_cons, List.append_assoc, readMatches, hone]
      simp [ih]
  have hlen : ∀ ms : List Match, ms.length ≤ (ms.flatMap Match.words).length := by
    intro ms
    induction ms with
    | nil => exact Nat.le_refl 0
    | cons m ms ih =>
      have hpos := List.length_pos_iff.mpr (words_ne_nil m)
      rw [List.flatMap_cons, List.length_append, List.length_cons]
      omega
  refine hmatches r.matchers (fun _ h => h) _ ?_
  have hpos := List.length_pos_iff.mpr (stmt_words_ne_nil r.stmt)
  have hle := hlen r.matchers
  unfold Rule.words
  rw [List.length_append]
  omega

/-! ## Blocks -/

/-- The text is whole lines with these words, whatever follows. -/
def LinesSay (s : String) (wss : List (List String)) : Prop :=
  ∀ rest, ((s.toList ++ rest).splitOn '\n').map words = wss ++ (rest.splitOn '\n').map words

namespace LinesSay

variable {s t : String} {ws : List String} {wss vss : List (List String)}

theorem empty : LinesSay "" [] := fun _ => rfl

theorem line (h : Says s ws) : LinesSay (s ++ "\n") [ws] := by
  intro rest
  have htext : (s ++ "\n").toList ++ rest = s.toList ++ '\n' :: rest := by simp [String.toList_append]
  rw [htext, List.splitOn_append_cons_self, List.splitOn_eq_singleton h.1, List.map_append, List.map_singleton, h.2]

theorem append (hs : LinesSay s wss) (ht : LinesSay t vss) : LinesSay (s ++ t) (wss ++ vss) := by
  intro rest
  rw [String.toList_append, List.append_assoc, hs, ht, List.append_assoc]

theorem join {α : Type} {xs : List α} {f : α → String} {g : α → List (List String)}
    (h : ∀ x ∈ xs, LinesSay (f x) (g x)) : LinesSay (String.join (xs.map f)) (xs.flatMap g) := by
  induction xs with
  | nil => exact empty
  | cons x xs ih =>
    rw [List.map_cons, String.join_cons, List.flatMap_cons]
    exact (h x List.mem_cons_self).append (ih fun y hy => h y (List.mem_cons_of_mem _ hy))

/-- The words of a file that is such lines. -/
theorem fileWords_eq (h : LinesSay s wss) : fileWords s = wss ++ [[]] := by
  have hfile := h []
  rw [List.append_nil] at hfile
  exact hfile

end LinesSay

/-! ### Chains -/

/-- The line below a chain's name. -/
def Chain.headText (c : Chain) : String := c.hook ++ "; policy " ++ c.policy.text ++ ";"

/-- Every part of the chain can be told from its lines. -/
structure Chain.Plain (c : Chain) : Prop where
  name : IsWord c.name
  line : '\n' ∉ c.headText.toList
  head : readHead (words c.headText.toList) = some (c.hook, c.policy)
  rules : ∀ r ∈ c.rules, r.Plain

/-- A chain as lines of words. -/
def Chain.lines (c : Chain) : List (List String) :=
  [["chain", c.name, "\x7b"], words c.headText.toList] ++ c.rules.map Rule.words ++ [["\x7d"]]

/-- The rules of a chain say a line each. -/
theorem linesSay_rules {rs : List Rule} (hloads : ∀ r ∈ rs, r.loads = true) (hplain : ∀ r ∈ rs, r.Plain) :
    LinesSay (String.join (rs.map fun r => "    " ++ r.text ++ "\n")) (rs.map Rule.words) := by
  rw [List.map_eq_flatMap (f := Rule.words)]
  refine LinesSay.join fun r hr => LinesSay.line ?_
  exact says_key (k := "    ") (u := []) rfl (by decide) (says_rule (hloads r hr) (hplain r hr))

/-- A chain says its header, its rules and its closing brace. -/
theorem linesSay_chain {c : Chain} (hloads : c.loads = true) (hplain : c.Plain) : LinesSay c.text c.lines := by
  have hname : Says ("  chain " ++ c.name ++ " " ++ "\x7b") ["chain", c.name, "\x7b"] :=
    (says_key (k := "  chain ") (u := ["chain"]) rfl (by decide) hplain.name.say).append (t := "\x7b") (by decide)
  have hhead : Says ("    " ++ c.headText) (words c.headText.toList) :=
    says_key (k := "    ") (u := []) rfl (by decide) ⟨hplain.line, rfl⟩
  have hend : LinesSay ("  \x7d" ++ "\n") [["\x7d"]] := LinesSay.line (by decide)
  have h := (((LinesSay.line hname).append (LinesSay.line hhead)).append
    (linesSay_rules (List.all_eq_true.mp hloads) hplain.rules)).append hend
  have htext : c.text = "  chain " ++ c.name ++ " " ++ "\x7b" ++ "\n" ++ ("    " ++ c.headText ++ "\n") ++
      String.join (c.rules.map fun r => "    " ++ r.text ++ "\n") ++ ("  \x7d" ++ "\n") := by
    have hopen : (" \x7b\n    " : String) = " " ++ "\x7b" ++ "\n" ++ "    " := by decide
    have hpolicy : (";\n" : String) = ";" ++ "\n" := by decide
    have hclose : ("  \x7d\n" : String) = "  \x7d" ++ "\n" := by decide
    unfold Chain.text Chain.headText
    rw [hopen, hpolicy, hclose]
    simp only [String.append_assoc]
  rw [htext]
  exact h

/-- The rules of an open chain are added to it, one line after the other. -/
theorem readRules_lines (ts : List Table) {t : Table} {rs : List Rule} (hloads : ∀ r ∈ rs, r.loads = true)
    (hplain : ∀ r ∈ rs, r.Plain) (c : Chain) :
    (rs.map Rule.words).foldlM readLine ⟨ts, .chain t c⟩ =
      some ⟨ts, .chain t { c with rules := c.rules ++ rs }⟩ := by
  induction rs generalizing c with
  | nil => simp
  | cons r rs ih =>
    have hread := readRule_words (hloads r List.mem_cons_self) (hplain r List.mem_cons_self)
    have hne : r.words ≠ [] := by simp [Rule.words, stmt_words_ne_nil]
    have hopen : r.words ≠ ["\x7d"] := by
      intro h
      have hnone : readRule ["\x7d"] = none := by decide
      rw [h, hnone] at hread
      exact absurd hread (by simp)
    have hline : readLine ⟨ts, .chain t c⟩ r.words = some ⟨ts, .chain t { c with rules := c.rules ++ [r] }⟩ := by
      simp [readLine, hne, hopen, hread]
    rw [List.map_cons, List.foldlM_cons, hline]
    have ih := ih (fun x hx => hloads x (List.mem_cons_of_mem _ hx)) (fun x hx => hplain x (List.mem_cons_of_mem _ hx))
      { c with rules := c.rules ++ [r] }
    simpa using ih

/-- Reading a chain's lines inside a table adds the chain to the table. -/
theorem readChain_lines (ts : List Table) (t : Table) {c : Chain} (hloads : c.loads = true) (hplain : c.Plain) :
    c.lines.foldlM readLine ⟨ts, .table t⟩ = some ⟨ts, .table { t with chains := t.chains ++ [c] }⟩ := by
  have hne : words c.headText.toList ≠ [] := by
    intro h
    have hhead := hplain.head
    rw [h] at hhead
    exact absurd hhead (by simp [readHead])
  have hname : readLine ⟨ts, .table t⟩ ["chain", c.name, "\x7b"] = some ⟨ts, .head t c.name⟩ := by
    simp [readLine, readInner]
  have hhead : readLine ⟨ts, .head t c.name⟩ (words c.headText.toList) =
      some ⟨ts, .chain t ⟨c.name, c.hook, c.policy, []⟩⟩ := by
    simp [readLine, hne, hplain.head]
  have hrules := readRules_lines ts (t := t) (List.all_eq_true.mp hloads) hplain.rules
    ⟨c.name, c.hook, c.policy, []⟩
  have hend : readLine ⟨ts, .chain t c⟩ ["\x7d"] = some ⟨ts, .table { t with chains := t.chains ++ [c] }⟩ := by
    simp [readLine]
  unfold Chain.lines
  rw [List.foldlM_append, List.foldlM_append, List.foldlM_cons, hname]
  simp only [Option.bind_eq_bind, Option.bind_some, List.foldlM_cons, hhead, List.foldlM_nil, Option.pure_def, hrules,
    List.nil_append, hend]

/-! ### Tables -/

/-- Every part of the table can be told from its lines. -/
structure Table.Plain (t : Table) : Prop where
  family : IsWord t.family
  name : IsWord t.name
  chains : ∀ c ∈ t.chains, c.Plain

/-- A table as lines of words, emptied first. -/
def Table.lines (t : Table) : List (List String) :=
  [["add", "table", t.family, t.name], ["flush", "table", t.family, t.name], ["table", t.family, t.name, "\x7b"]] ++
    t.chains.flatMap Chain.lines ++ [["\x7d"]]

/-- A table says its header, its chains and its closing brace. -/
theorem linesSay_table {t : Table} (hloads : t.loads = true) (hplain : t.Plain) : LinesSay t.text t.lines := by
  have hid : Says (t.family ++ " " ++ t.name) [t.family, t.name] := hplain.family.say.append hplain.name.say
  have hadd := LinesSay.line (says_key (k := "add table ") (u := ["add", "table"]) rfl (by decide) hid)
  have hflush := LinesSay.line (says_key (k := "flush table ") (u := ["flush", "table"]) rfl (by decide) hid)
  have hopen : Says ("table " ++ (t.family ++ " " ++ t.name) ++ " " ++ "\x7b") ["table", t.family, t.name, "\x7b"] :=
    (says_key (k := "table ") (u := ["table"]) rfl (by decide) hid).append (t := "\x7b") (by decide)
  have hchains : LinesSay (String.join (t.chains.map Chain.text)) (t.chains.flatMap Chain.lines) :=
    LinesSay.join fun c hc => linesSay_chain (List.all_eq_true.mp hloads c hc) (hplain.chains c hc)
  have hend : LinesSay ("\x7d" ++ "\n") [["\x7d"]] := LinesSay.line (by decide)
  have h := (((hadd.append hflush).append (LinesSay.line hopen)).append hchains).append hend
  have htext : t.text = "add table " ++ (t.family ++ " " ++ t.name) ++ "\n" ++
      ("flush table " ++ (t.family ++ " " ++ t.name) ++ "\n") ++
      ("table " ++ (t.family ++ " " ++ t.name) ++ " " ++ "\x7b" ++ "\n") ++ String.join (t.chains.map Chain.text) ++
      ("\x7d" ++ "\n") := by
    have hflush : ("\nflush table " : String) = "\n" ++ "flush table " := by decide
    have hopen : ("\ntable " : String) = "\n" ++ "table " := by decide
    have hbrace : (" \x7b\n" : String) = " " ++ "\x7b" ++ "\n" := by decide
    have hclose : ("\x7d\n" : String) = "\x7d" ++ "\n" := by decide
    unfold Table.text
    dsimp only
    rw [hflush, hopen, hbrace, hclose]
    simp only [String.append_assoc]
  rw [htext]
  exact h

/-- Reading several chains adds them in their order. -/
theorem readChains_lines (ts : List Table) {cs : List Chain} (hloads : ∀ c ∈ cs, c.loads = true)
    (hplain : ∀ c ∈ cs, c.Plain) (t : Table) :
    (cs.flatMap Chain.lines).foldlM readLine ⟨ts, .table t⟩ =
      some ⟨ts, .table { t with chains := t.chains ++ cs }⟩ := by
  induction cs generalizing t with
  | nil => simp
  | cons c cs ih =>
    have hone := readChain_lines ts t (hloads c List.mem_cons_self) (hplain c List.mem_cons_self)
    have ih := ih (fun x hx => hloads x (List.mem_cons_of_mem _ hx)) (fun x hx => hplain x (List.mem_cons_of_mem _ hx))
      { t with chains := t.chains ++ [c] }
    rw [List.flatMap_cons, List.foldlM_append, hone]
    simpa using ih

/-- Reading a table's lines at the top adds the table to the file. -/
theorem readTable_lines (ts : List Table) {t : Table} (hloads : t.loads = true) (hplain : t.Plain) :
    t.lines.foldlM readLine ⟨ts, .top⟩ = some ⟨ts ++ [t], .top⟩ := by
  have hadd : readLine ⟨ts, .top⟩ ["add", "table", t.family, t.name] = some ⟨ts, .top⟩ := by
    simp [readLine, readTop]
  have hflush : readLine ⟨ts, .top⟩ ["flush", "table", t.family, t.name] = some ⟨ts, .top⟩ := by
    simp [readLine, readTop]
  have hopen : readLine ⟨ts, .top⟩ ["table", t.family, t.name, "\x7b"] =
      some ⟨ts, .table ⟨t.family, t.name, []⟩⟩ := by
    simp [readLine, readTop]
  have hchains := readChains_lines ts (List.all_eq_true.mp hloads) hplain.chains ⟨t.family, t.name, []⟩
  have hend : readLine ⟨ts, .table t⟩ ["\x7d"] = some ⟨ts ++ [t], .top⟩ := by
    simp [readLine, readInner]
  unfold Table.lines
  rw [List.foldlM_append, List.foldlM_append, List.foldlM_cons, hadd]
  simp only [Option.bind_eq_bind, Option.bind_some, List.foldlM_cons, hflush, hopen, List.foldlM_nil, Option.pure_def,
    hchains, List.nil_append, hend]

/-- A file of tables, a blank line between two of them. -/
theorem readTables_lines {ts : List Table} (hloads : ∀ t ∈ ts, t.loads = true) (hplain : ∀ t ∈ ts, t.Plain) :
    ∃ wss, LinesSay ("\n".intercalate (ts.map Table.text)) wss ∧
      ∀ seen, wss.foldlM readLine ⟨seen, .top⟩ = some ⟨seen ++ ts, .top⟩ := by
  induction ts with
  | nil => exact ⟨[], .empty, fun seen => by simp⟩
  | cons t ts ih =>
    have htext := linesSay_table (hloads t List.mem_cons_self) (hplain t List.mem_cons_self)
    have hread := fun seen => readTable_lines seen (hloads t List.mem_cons_self) (hplain t List.mem_cons_self)
    obtain ⟨wss, hsay, hrest⟩ :=
      ih (fun x hx => hloads x (List.mem_cons_of_mem _ hx)) fun x hx => hplain x (List.mem_cons_of_mem _ hx)
    cases ts with
    | nil => exact ⟨t.lines, by simpa using htext, by simpa using hread⟩
    | cons u ts =>
      have hblank : LinesSay "\n" [[]] := LinesSay.line (s := "") Says.empty
      refine ⟨t.lines ++ [[]] ++ wss, ?_, fun seen => ?_⟩
      · rw [List.map_cons, String.intercalate_cons_of_ne_nil (by simp)]
        exact (htext.append hblank).append hsay
      · have hskip : readLine ⟨seen ++ [t], .top⟩ [] = some ⟨seen ++ [t], .top⟩ := rfl
        rw [List.foldlM_append, List.foldlM_append, hread]
        simp [hskip, hrest]

/-- **The ruleset reads back**: tables that `nft` takes, with plain names, are read from their text as they are. -/
theorem readRuleset_text {ts : List Table} (hloads : ∀ t ∈ ts, t.loads = true) (hplain : ∀ t ∈ ts, t.Plain) :
    readRuleset ("\n".intercalate (ts.map Table.text)) = some ts := by
  obtain ⟨wss, hsay, hread⟩ := readTables_lines hloads hplain
  have hlast : readLine ⟨ts, .top⟩ [] = some ⟨ts, .top⟩ := rfl
  unfold readRuleset
  rw [hsay.fileWords_eq, List.foldlM_append, hread]
  simp [hlast]

end Nft
