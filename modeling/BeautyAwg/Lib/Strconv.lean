import Mathlib.Algebra.Order.Ring.Int
import Mathlib.Tactic.Common

/-!
# `Strconv`: integers as decimal text

Formatting and parsing of 64-bit integers. The parser takes a sign and digits, of which the first may be zeros. It
returns a value beside its error: zero for what is no number, the nearest number for one that is out of range. What
is formatted is parsed (`parseInt_formatInt`), and what is parsed is a sign and digits (`parseInt_chars`).
-/

namespace Strconv

/-- Why a text is no number of the type. -/
inductive NumError where
  | errSyntax
  | errRange
  deriving DecidableEq, Repr

/-- A number in decimal. -/
def formatInt (n : Int) : List Char :=
  match n with
  | .ofNat n => Nat.toDigits 10 n
  | .negSucc n => '-' :: Nat.toDigits 10 (n + 1)

/-- The digits from `n` on, which stop at what is no digit and where the number leaves 64 bits. -/
def parseDigits : List Char → Nat → Nat × Option NumError
  | [], n => (n, none)
  | c :: cs, n =>
    if c.isDigit then
      if 2 ^ 64 ≤ n * 10 + (c.toNat - '0'.toNat) then (2 ^ 64 - 1, some .errRange)
      else parseDigits cs (n * 10 + (c.toNat - '0'.toNat))
    else (0, some .errSyntax)

/-- The number and, if there is one, the error; a number that is too large is cut to the largest. -/
def parseUint (cs : List Char) : Nat × Option NumError :=
  if cs = [] then (0, some .errSyntax) else parseDigits cs 0

/-- Whether there is a minus, and what stands after the sign. -/
def sign : List Char → Bool × List Char
  | '+' :: cs => (false, cs)
  | '-' :: cs => (true, cs)
  | cs => (false, cs)

/-- The same with a sign. -/
def parseInt (cs : List Char) : Int × Option NumError :=
  let (neg, ds) := sign cs
  match parseUint ds with
  | (_, some .errSyntax) => (0, some .errSyntax)
  | (n, _) =>
    if neg = false ∧ 2 ^ 63 ≤ n then (2 ^ 63 - 1, some .errRange)
    else if neg = true ∧ 2 ^ 63 < n then (-2 ^ 63, some .errRange)
    else (if neg then -n else n, none)

/-! ## Digits -/

variable {cs ds : List Char} {n : Nat}

/-- Further digits only make a number larger. -/
theorem le_ofDigitChars (cs : List Char) (n : Nat) : n ≤ Nat.ofDigitChars 10 cs n := by
  induction cs generalizing n with
  | nil => exact Nat.le_refl n
  | cons c cs ih =>
    rw [Nat.ofDigitChars_cons]
    have hle := ih (10 * n + (c.toNat - '0'.toNat))
    omega

/-- Digits that stay below 64 bits. -/
theorem parseDigits_eq (hds : ∀ c ∈ ds, c.isDigit = true) (h : Nat.ofDigitChars 10 ds n < 2 ^ 64) :
    parseDigits ds n = (Nat.ofDigitChars 10 ds n, none) := by
  induction ds generalizing n with
  | nil => rfl
  | cons c cs ih =>
    rw [Nat.ofDigitChars_cons] at h ⊢
    -- the number only grows, so the digits so far are in range too
    have hle := le_ofDigitChars cs (10 * n + (c.toNat - '0'.toNat))
    rw [parseDigits, if_pos (hds c List.mem_cons_self), if_neg (by omega), Nat.mul_comm n 10]
    exact ih (fun c' hc' => hds c' (List.mem_cons_of_mem _ hc')) h

/-- What is parsed without an error is digits. -/
theorem isDigit_of_parseDigits (h : (parseDigits ds n).2 = none) : ∀ c ∈ ds, c.isDigit = true := by
  induction ds generalizing n with
  | nil => exact fun c hc => absurd hc List.not_mem_nil
  | cons d ds ih =>
    rw [parseDigits] at h
    split at h
    · rename_i hd
      split at h
      · exact absurd h (by simp)
      · intro c hc
        rcases List.mem_cons.mp hc with rfl | hc
        · exact hd
        · exact ih h c hc
    · exact absurd h (by simp)

/-- Beside the error for a number that is out of range stands the largest number. -/
theorem errRange_parseDigits (h : (parseDigits ds n).2 = some .errRange) : (parseDigits ds n).1 = 2 ^ 64 - 1 := by
  induction ds generalizing n with
  | nil => exact absurd h (by simp [parseDigits])
  | cons c cs ih =>
    rw [parseDigits] at h ⊢
    split at h
    · rename_i hdigit
      rw [if_pos hdigit]
      split at h
      · rename_i hlarge
        rw [if_pos hlarge]
      · rename_i hsmall
        rw [if_neg hsmall]
        exact ih h
    · exact absurd h (by simp)

/-- A number out of range is given as the largest one. -/
theorem errRange_parseUint (h : (parseUint ds).2 = some .errRange) : (parseUint ds).1 = 2 ^ 64 - 1 := by
  unfold parseUint at h ⊢
  split at h
  · exact absurd h (by simp)
  · rename_i hne
    rw [if_neg hne]
    exact errRange_parseDigits h

theorem sign_of_digits (hds : ∀ c ∈ ds, c.isDigit = true) : sign ds = (false, ds) := by
  unfold sign
  split
  · exact absurd (hds '+' List.mem_cons_self) (by decide)
  · exact absurd (hds '-' List.mem_cons_self) (by decide)
  · rfl

/-- A number below `2 ^ 64` is read back from its digits. -/
theorem parseUint_toDigits (h : n < 2 ^ 64) : parseUint (Nat.toDigits 10 n) = (n, none) := by
  have hdigits : ∀ c ∈ Nat.toDigits 10 n, c.isDigit = true :=
    fun c hc => Nat.isDigit_of_mem_toDigits (by omega) (by omega) hc
  have hvalue : Nat.ofDigitChars 10 (Nat.toDigits 10 n) 0 = n := Nat.ofDigitChars_ten_toDigits
  rw [parseUint, if_neg Nat.toDigits_ne_nil, parseDigits_eq hdigits (by rwa [hvalue]), hvalue]

/-! ## Integers -/

/-- **Round trip**, of the integers of 64 bits. -/
theorem parseInt_formatInt {n : Int} (hlow : -2 ^ 63 ≤ n) (hhigh : n < 2 ^ 63) :
    parseInt (formatInt n) = (n, none) := by
  cases n with
  | ofNat n =>
    have hn : n < 2 ^ 63 := by
      have hhigh' : (n : Int) < 2 ^ 63 := hhigh
      omega
    have hsign : sign (Nat.toDigits 10 n) = (false, Nat.toDigits 10 n) :=
      sign_of_digits fun c hc => Nat.isDigit_of_mem_toDigits (by omega) (by omega) hc
    rw [formatInt, parseInt, hsign]
    dsimp only
    rw [parseUint_toDigits (by omega)]
    dsimp only
    rw [if_neg (by omega), if_neg (by simp)]
    rfl
  | negSucc n =>
    have hn : n + 1 ≤ 2 ^ 63 := by
      have hlow' : -2 ^ 63 ≤ Int.negSucc n := hlow
      omega
    have hsign : sign ('-' :: Nat.toDigits 10 (n + 1)) = (true, Nat.toDigits 10 (n + 1)) := rfl
    rw [formatInt, parseInt, hsign]
    dsimp only
    rw [parseUint_toDigits (by omega)]
    dsimp only
    rw [if_neg (by simp), if_neg (by omega)]
    rfl

/-- Digits after an optional sign are all there is to the text. -/
theorem sign_chars (h : ∀ c ∈ (sign cs).2, c.isDigit = true) : ∀ c ∈ cs, c = '+' ∨ c = '-' ∨ c.isDigit = true := by
  unfold sign at h
  split at h
  · intro c hc
    exact (List.mem_cons.mp hc).imp_right fun hc => .inr (h c hc)
  · intro c hc
    exact .inr ((List.mem_cons.mp hc).imp_right (h c))
  · exact fun c hc => .inr (.inr (h c hc))

/-- A number that is parsed without an error has been parsed without an error as one without a sign. -/
theorem parseUint_of_parseInt (h : (parseInt cs).2 = none) : (parseUint (sign cs).2).2 = none := by
  unfold parseInt at h
  rcases hsign : sign cs with ⟨neg, ds⟩
  rcases huint : parseUint ds with ⟨n, err⟩
  rw [hsign] at h
  dsimp only at h
  rw [huint] at h
  match err with
  | none => rfl
  | some .errSyntax => exact absurd h (by simp)
  | some .errRange =>
    -- out of range without a sign is out of range with one
    have hmax : n = 2 ^ 64 - 1 := by
      have hrange := errRange_parseUint (congrArg Prod.snd huint)
      rwa [huint] at hrange
    subst hmax
    cases neg <;> exact absurd h (by decide)

/-- What is parsed without an error is a sign and digits. -/
theorem parseInt_chars (h : (parseInt cs).2 = none) : ∀ c ∈ cs, c = '+' ∨ c = '-' ∨ c.isDigit = true := by
  have huint := parseUint_of_parseInt h
  refine sign_chars fun c hc => ?_
  unfold parseUint at huint
  split at huint
  · exact absurd huint (by simp)
  · exact isDigit_of_parseDigits huint c hc

end Strconv
