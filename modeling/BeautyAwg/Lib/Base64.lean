import Mathlib.Algebra.Order.Ring.Nat
import Mathlib.Tactic.Common

/-!
# `Base64`: bytes as digits of six bits

Three bytes are four digits, and what is left over at the end is two digits or three, without padding. The decoder
is lenient: it skips line breaks and does not look at the bits that the last digit has too many. What is encoded is
decoded (`decode_encode`), and an encoding consists of digits (`mem_encode`).
-/

namespace Base64

/-- Sixty-four digits, which are told apart from each other and from line breaks. -/
structure Alphabet where
  digit : Fin 64 → UInt8
  value : UInt8 → Option (Fin 64)
  value_digit : ∀ d, value (digit d) = some d
  value_lf : value 10 = none
  value_cr : value 13 = none

variable (a : Alphabet)

/-! ## Blocks -/

/-- Three bytes as one number. -/
def block (x y z : UInt8) : Nat := x.toNat * 2 ^ 16 + y.toNat * 2 ^ 8 + z.toNat

/-- Four digits as one number. -/
def join (p q r s : Fin 64) : Nat := p * 2 ^ 18 + q * 2 ^ 12 + r * 2 ^ 6 + s

/-- The `i`-th byte of a number, from the right. -/
def octet (v i : Nat) : UInt8 := UInt8.ofNat (v / 2 ^ (8 * i))

/-- The `i`-th digit of a number, from the right. -/
def sextet (v i : Nat) : Fin 64 := Fin.ofNat 64 (v / 2 ^ (6 * i))

/-- Three octets make a block below `2 ^ 24`. -/
theorem block_lt (x y z : UInt8) : block x y z < 2 ^ 24 := by
  have hx := x.toNat_lt
  have hy := y.toNat_lt
  have hz := z.toNat_lt
  unfold block
  omega

/-- The octets of a block are the ones it was made from. -/
theorem octets_block (x y z : UInt8) :
    octet (block x y z) 2 = x ∧ octet (block x y z) 1 = y ∧ octet (block x y z) 0 = z := by
  have hx := x.toNat_lt
  have hy := y.toNat_lt
  have hz := z.toNat_lt
  refine ⟨?_, ?_, ?_⟩ <;>
  · apply UInt8.toNat_inj.mp
    simp only [octet, block, UInt8.toNat_ofNat']
    omega

/-- A number of 24 bits is the number of its digits. -/
theorem join_sextets {v : Nat} (h : v < 2 ^ 24) : join (sextet v 3) (sextet v 2) (sextet v 1) (sextet v 0) = v := by
  simp only [join, sextet, Fin.val_ofNat]
  omega

/-- A block with a byte too few fills its last digit with zeros, one with two too few its last two. -/
theorem sextets_zero (x y : UInt8) : sextet (block x y 0) 0 = 0 ∧ sextet (block x 0 0) 1 = 0 := by
  constructor <;>
  · apply Fin.val_inj.mp
    simp only [sextet, block, Fin.val_ofNat, UInt8.toNat_zero, Fin.val_zero]
    omega

/-! ## Codec -/

/-- Four digits for three bytes; a rest of one or two bytes has two or three digits, without padding. -/
def encode : List UInt8 → List UInt8
  | x :: y :: z :: rest =>
    let v := block x y z
    a.digit (sextet v 3) :: a.digit (sextet v 2) :: a.digit (sextet v 1) :: a.digit (sextet v 0) :: encode rest
  | [x, y] =>
    let v := block x y 0
    [a.digit (sextet v 3), a.digit (sextet v 2), a.digit (sextet v 1)]
  | [x] =>
    let v := block x 0 0
    [a.digit (sextet v 3), a.digit (sextet v 2)]
  | [] => []

/-- The digits of a text, of which a single one is left over by no encoding. -/
def decodeDigits : List UInt8 → Option (List UInt8)
  | p :: q :: r :: s :: rest => do
    let v := join (← a.value p) (← a.value q) (← a.value r) (← a.value s)
    let bytes ← decodeDigits rest
    pure (octet v 2 :: octet v 1 :: octet v 0 :: bytes)
  | [p, q, r] => do
    let v := join (← a.value p) (← a.value q) (← a.value r) 0
    pure [octet v 2, octet v 1]
  | [p, q] => do
    let v := join (← a.value p) (← a.value q) 0 0
    pure [octet v 2]
  | [_] => none
  | [] => some []

/-- A line break, which a decoder skips. -/
def isBreak (c : UInt8) : Bool := c = 10 ∨ c = 13

/-- The bytes of a text, if it is an encoding of some. -/
def decode (text : List UInt8) : Option (List UInt8) := decodeDigits a (text.filter fun c => !isBreak c)

/-! ## Round trip -/

variable {a} {bytes : List UInt8}

/-- Every character of an encoding is a digit of the alphabet. -/
theorem mem_encode {c : UInt8} (h : c ∈ encode a bytes) : ∃ d, c = a.digit d := by
  fun_induction encode a bytes with
  | case1 x y z rest v ih =>
    simp only [List.mem_cons] at h
    rcases h with rfl | rfl | rfl | rfl | h
    · exact ⟨_, rfl⟩
    · exact ⟨_, rfl⟩
    · exact ⟨_, rfl⟩
    · exact ⟨_, rfl⟩
    · exact ih h
  | case2 x y v =>
    simp only [List.mem_cons, List.not_mem_nil, or_false] at h
    rcases h with rfl | rfl | rfl <;> exact ⟨_, rfl⟩
  | case3 x v =>
    simp only [List.mem_cons, List.not_mem_nil, or_false] at h
    rcases h with rfl | rfl <;> exact ⟨_, rfl⟩
  | case4 => exact absurd h List.not_mem_nil

/-- No digit of the alphabet is a line break, so an encoding stands on one line. -/
theorem not_break_digit (d : Fin 64) : isBreak (a.digit d) = false := by
  have hvalue := a.value_digit d
  refine decide_eq_false ?_
  rintro (h | h)
  · rw [h, a.value_lf] at hvalue
    exact absurd hvalue (by simp)
  · rw [h, a.value_cr] at hvalue
    exact absurd hvalue (by simp)

/-- Decoding what was encoded gives the bytes back, three at a time. -/
theorem decodeDigits_encode (bytes : List UInt8) : decodeDigits a (encode a bytes) = some bytes := by
  fun_induction encode a bytes with
  | case1 x y z rest v ih =>
    obtain ⟨hx, hy, hz⟩ := octets_block x y z
    simp only [decodeDigits, a.value_digit, Option.bind_eq_bind, Option.bind_some, ih, Option.pure_def]
    rw [join_sextets (block_lt x y z), hx, hy, hz]
  | case2 x y v =>
    -- the digit that is left out is zero, as the decoder takes it to be
    obtain ⟨hx, hy, -⟩ := octets_block x y 0
    have hjoin := join_sextets (block_lt x y 0)
    rw [(sextets_zero x y).1] at hjoin
    simp only [decodeDigits, a.value_digit, Option.bind_eq_bind, Option.bind_some, Option.pure_def]
    rw [hjoin, hx, hy]
  | case3 x v =>
    obtain ⟨hx, -, -⟩ := octets_block x 0 0
    have hjoin := join_sextets (block_lt x 0 0)
    rw [(sextets_zero x 0).1, (sextets_zero x 0).2] at hjoin
    simp only [decodeDigits, a.value_digit, Option.bind_eq_bind, Option.bind_some, Option.pure_def]
    rw [hjoin, hx]
  | case4 => rfl

/-- **Round trip.** -/
theorem decode_encode (bytes : List UInt8) : decode a (encode a bytes) = some bytes := by
  have hdigits : (encode a bytes).filter (fun c => !isBreak c) = encode a bytes := by
    refine List.filter_eq_self.mpr fun c hc => ?_
    obtain ⟨d, rfl⟩ := mem_encode hc
    rw [not_break_digit]
    rfl
  unfold decode
  rw [hdigits, decodeDigits_encode]

/-! ## The alphabet of URLs -/

/-- The 64 digits that may stand in an address. -/
def urlDigits : List UInt8 :=
  "ABCDEFGHIJKLMNOPQRSTUVWXYZabcdefghijklmnopqrstuvwxyz0123456789-_".toList.map Char.toUInt8

/-- The digit of a value. -/
def urlDigit (d : Fin 64) : UInt8 := urlDigits.getD d 0

/-- The value of a digit. -/
def urlValue (c : UInt8) : Option (Fin 64) := (List.finRange 64).find? fun d => urlDigit d = c

/-- The alphabet that is safe in URLs. -/
def url : Alphabet where
  digit := urlDigit
  value := urlValue
  value_digit := by decide +kernel
  value_lf := by decide +kernel
  value_cr := by decide +kernel

/-- What is no digit is not in an encoding. -/
theorem not_mem_encode {c : UInt8} (h : a.value c = none) (bytes : List UInt8) : c ∉ encode a bytes := by
  intro hc
  obtain ⟨d, rfl⟩ := mem_encode hc
  rw [a.value_digit] at h
  exact absurd h (by simp)

end Base64
