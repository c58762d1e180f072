import Mathlib.Tactic.Common

/-!
# `Shell`: words and operators

How a POSIX shell breaks a command line into tokens, before any expansion: one character at a time, with what quotes
and expansions are open. Quotes stay in their word. A line break is an operator, also after a backslash.

## Contents
- **Tokens.** `Token`, `operators`.
- **Quoting.** `Quote`, `Quoting.next`.
- **Recognition.** `Mode`, `Mode.step`, `tokens`.
- **Plain words.** `Plain`; `tokens_words`: plain words between blanks are the tokens.
-/

namespace Shell

/-! ## Tokens -/

/-- A word, an operator, or a number right before a redirection. -/
inductive Token where
  | word (w : List Char)
  | op (o : List Char)
  | ioNumber (n : List Char)
  deriving DecidableEq, Repr

/-- What the shell takes for operators. -/
def operators : List (List Char) :=
  ["&", "&&", "|", "||", ";", ";;", "<", "<<", "<<-", "<&", "<>", ">", ">>", ">&", ">|", "(", ")"].map String.toList

/-- The character begins an operator. -/
def isOperator (c : Char) : Bool := c = '&' ∨ c = '|' ∨ c = ';' ∨ c = '<' ∨ c = '>' ∨ c = '(' ∨ c = ')'

/-- What parts words. -/
def isBlank (c : Char) : Bool := c = ' ' ∨ c = '\t'

/-! ## Quoting -/

/-- What is open: quotes, a command in backquotes or parentheses, a parameter in braces. -/
inductive Quote where
  | single
  | double
  | backquote
  | paren
  | brace
  deriving DecidableEq, Repr

/-- What is open in a word, the innermost first; whether the last character was a backslash that quotes the next one,
    or a dollar sign that may begin an expansion. The second of two dollar signs does not. -/
structure Quoting where
  opened : List Quote
  escaped : Bool
  dollar : Bool
  deriving DecidableEq, Repr

namespace Quoting

/-- Nothing is quoted. -/
def none : Quoting := ⟨[], false, false⟩

/-- Nothing is open, so the next character may end the word. -/
def bare (q : Quoting) : Bool := q.opened = [] ∧ q.escaped = false

/-- A dollar sign begins an expansion with the character. -/
def expands (q : Quoting) (c : Char) : Bool := q.dollar ∧ (c = '(' ∨ c = '\x7b')

/-- After one more character of the word. -/
def next (q : Quoting) (c : Char) : Quoting :=
  if q.escaped then { q with escaped := false, dollar := false }
  else if q.opened.head? = some .single then
    if c = '\'' then ⟨q.opened.tail, false, false⟩ else ⟨q.opened, false, false⟩
  else if c = '\\' then ⟨q.opened, true, false⟩
  else if q.opened.head? = some .backquote then
    if c = '\x60' then ⟨q.opened.tail, false, false⟩ else ⟨q.opened, false, false⟩
  else if q.expands c then ⟨(if c = '(' then .paren else .brace) :: q.opened, false, false⟩
  else if c = '\x60' then ⟨.backquote :: q.opened, false, false⟩
  else if c = '"' then
    if q.opened.head? = some .double then ⟨q.opened.tail, false, false⟩ else ⟨.double :: q.opened, false, false⟩
  else if q.opened.head? = some .double then ⟨q.opened, false, c = '$' ∧ q.dollar = false⟩
  else if c = '\'' then ⟨.single :: q.opened, false, false⟩
  else if c = '(' ∧ q.opened.head? = some .paren then ⟨.paren :: q.opened, false, false⟩
  else if c = ')' ∧ q.opened.head? = some .paren then ⟨q.opened.tail, false, false⟩
  else if c = '\x7d' ∧ q.opened.head? = some .brace then ⟨q.opened.tail, false, false⟩
  else ⟨q.opened, false, c = '$' ∧ q.dollar = false⟩

end Quoting

/-! ## Recognition -/

/-- Where the reading stands: between tokens, in a comment, or inside a token. -/
inductive Mode where
  | start
  | comment
  | word (w : List Char) (q : Quoting)
  | oper (o : List Char)
  deriving DecidableEq, Repr

namespace Mode

/-- A character that follows no word or operator. -/
def first (c : Char) : List Token × Mode :=
  if isBlank c then ([], start)
  else if c = '\n' then ([.op [c]], start)
  else if c = '#' then ([], comment)
  else if isOperator c then ([], oper [c])
  else ([], word [c] (Quoting.none.next c))

/-- The word that an operator ends. -/
def ended (w : List Char) (c : Char) : Token :=
  if w.all Char.isDigit ∧ (c = '<' ∨ c = '>') then .ioNumber w else .word w

/-- The tokens that one more character completes, and where the reading stands after it. -/
def step (m : Mode) (c : Char) : List Token × Mode :=
  match m with
  | start => first c
  | comment => if c = '\n' then ([.op [c]], start) else ([], comment)
  | oper o => if o ++ [c] ∈ operators then ([], oper (o ++ [c])) else (.op o :: (first c).1, (first c).2)
  | word w q =>
    if ¬ q.bare ∨ q.expands c then ([], word (w ++ [c]) (q.next c))
    else if isBlank c then ([.word w], start)
    else if c = '\n' then ([.word w, .op [c]], start)
    else if isOperator c then ([ended w c], oper [c])
    else ([], word (w ++ [c]) (q.next c))

/-- The token that the end of the text completes. `none`: something is left open. -/
def finish : Mode → Option (List Token)
  | start | comment => some []
  | oper o => some [.op o]
  | word w q => if q.bare then some [.word w] else none

end Mode

/-- The words and operators of the rest of a line. -/
def tokensFrom : Mode → List Char → Option (List Token)
  | m, [] => m.finish
  | m, c :: cs => (tokensFrom (m.step c).2 cs).map ((m.step c).1 ++ ·)

/-- The words and operators of a line, if its quotes are closed. -/
def tokens (text : List Char) : Option (List Token) := tokensFrom .start text

example : tokens "a  'b c'|| d\\ e 2>\"/x $(f ; \")\")\" # g".toList =
    some [.word "a".toList, .word "'b c'".toList, .op "||".toList, .word "d\\ e".toList, .ioNumber "2".toList,
      .op ">".toList, .word "\"/x $(f ; \")\")\"".toList] := by decide

/-! ## Plain words -/

/-- A character that stands for itself. -/
def Plain (c : Char) : Bool :=
  !isBlank c && !isOperator c && c ≠ '\n' && c ≠ '#' && c ≠ '\'' && c ≠ '"' && c ≠ '\\' && c ≠ '\x60' && c ≠ '$'

/-- A word of plain characters. -/
def PlainWord (w : List Char) : Prop := w ≠ [] ∧ ∀ c ∈ w, Plain c = true

instance (w : List Char) : Decidable (PlainWord w) :=
  decidable_of_iff (w ≠ [] ∧ w.all Plain = true) (by simp [PlainWord])

variable {c : Char} {w rest : List Char} {ts : List Token}

theorem next_plain (h : Plain c = true) : Quoting.none.next c = .none := by
  simp only [Plain, Bool.and_eq_true, decide_eq_true_eq] at h
  obtain ⟨⟨⟨⟨⟨_, hsq⟩, hdq⟩, hbs⟩, hbq⟩, hdollar⟩ := h
  simp [Quoting.next, Quoting.none, Quoting.expands, hsq, hdq, hbs, hbq, hdollar]

/-- A plain character opens a word. -/
theorem step_first (h : Plain c = true) : Mode.start.step c = ([], .word [c] .none) := by
  have hnext := next_plain h
  simp only [Plain, Bool.and_eq_true, Bool.not_eq_true', decide_eq_true_eq] at h
  obtain ⟨⟨⟨⟨⟨⟨⟨⟨hblank, hop⟩, hbreak⟩, hhash⟩, -⟩, -⟩, -⟩, -⟩, -⟩ := h
  simp [Mode.step, Mode.first, hblank, hop, hbreak, hhash, hnext]

/-- Inside a word a plain character goes on with it. -/
theorem step_word (h : Plain c = true) : (Mode.word w .none).step c = ([], .word (w ++ [c]) .none) := by
  have hnext := next_plain h
  simp only [Plain, Bool.and_eq_true, Bool.not_eq_true', decide_eq_true_eq] at h
  obtain ⟨⟨⟨⟨⟨⟨⟨⟨hblank, hop⟩, hbreak⟩, -⟩, -⟩, -⟩, -⟩, -⟩, -⟩ := h
  simp [Mode.step, Quoting.bare, Quoting.expands, Quoting.none, hblank, hop, hbreak] at hnext ⊢
  exact hnext

/-- Plain characters go on with the word. -/
theorem tokensFrom_word {v : List Char} (h : ∀ c ∈ v, Plain c = true) :
    tokensFrom (.word w .none) (v ++ rest) = tokensFrom (.word (w ++ v) .none) rest := by
  induction v generalizing w with
  | nil => simp
  | cons c v ih =>
    rw [List.cons_append, tokensFrom, step_word (h c List.mem_cons_self)]
    simp only [List.nil_append, Option.map_id']
    rw [ih fun x hx => h x (List.mem_cons_of_mem _ hx), List.append_assoc, List.singleton_append]

/-- A plain word is begun and read to its end. -/
theorem tokensFrom_start (h : PlainWord w) : tokensFrom .start (w ++ rest) = tokensFrom (.word w .none) rest := by
  obtain ⟨hne, hplain⟩ := h
  cases w with
  | nil => exact absurd rfl hne
  | cons c w =>
    rw [List.cons_append, tokensFrom, step_first (hplain c List.mem_cons_self)]
    simp only [List.nil_append, Option.map_id']
    rw [tokensFrom_word fun x hx => hplain x (List.mem_cons_of_mem _ hx), List.singleton_append]

/-- A blank ends the word. -/
theorem tokensFrom_blank : tokensFrom (.word w .none) (' ' :: rest) = (tokensFrom .start rest).map (.word w :: ·) := rfl

/-- **Plain words** between single blanks are the tokens. -/
theorem tokens_words {ws : List (List Char)} (h : ∀ w ∈ ws, PlainWord w) :
    tokens ([' '].intercalate ws) = some (ws.map .word) := by
  unfold tokens
  induction ws with
  | nil => rfl
  | cons w ws ih =>
    have hw := h w List.mem_cons_self
    cases ws with
    | nil =>
      rw [List.intercalate_singleton, ← List.append_nil w, tokensFrom_start hw]
      simp [tokensFrom, Mode.finish, Quoting.bare, Quoting.none]
    | cons v vs =>
      rw [List.intercalate_cons_cons, List.append_assoc, tokensFrom_start hw, List.singleton_append, tokensFrom_blank,
        ih fun x hx => h x (List.mem_cons_of_mem _ hx)]
      rfl

end Shell
