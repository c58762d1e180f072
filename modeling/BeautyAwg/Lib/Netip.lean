import Mathlib.Algebra.Order.Ring.Nat

/-!
# `Netip`: IP addresses and prefixes

The value types of Go's `net/netip`, as far as a program observes them: an address is the zero value,
an IPv4 or an IPv6 address; a prefix is an address with a number of leading bits. Zones are left out
(a prefix never has one).

## Contents
- **Addresses.** `next`, `less`, `unmap`-free textual form `text`.
- **Prefixes.** `contains`, `masked`, `overlaps`, `text`, and the parser `parsePrefix`.
- **Coverage lemmas.** `contains_v4` turns membership into a quotient equation over `Nat`,
  `contains_interval` into two bounds;
  `overlaps_of_contains` is how two overlapping prefixes are recognised.
-/

namespace Netip

/-! ## Addresses -/

/-- A `netip.Addr`. `invalid` is the zero value, which belongs to no family. -/
inductive Addr where
  | invalid
  | v4 (a : BitVec 32)
  | v6 (a : BitVec 128)
  deriving DecidableEq, Repr

namespace Addr

/-- The address is one at all. -/
def isValid : Addr → Bool
  | invalid => false
  | _ => true

/-- The address is an IPv4 one. -/
def is4 : Addr → Bool
  | v4 _ => true
  | _ => false

theorem is4_iff {a : Addr} : a.is4 = true ↔ ∃ x, a = .v4 x := by
  cases a <;> simp [is4]

/-- Number of bits of the address's family (`0` for the zero value). -/
def bitLen : Addr → Nat
  | invalid => 0
  | v4 _ => 32
  | v6 _ => 128

/-- The four bytes of an IPv4 or IPv4-mapped address. -/
def as4 : Addr → Option (BitVec 32)
  | invalid => none
  | v4 a => some a
  | v6 a => if a >>> 32 = 0xffff#128 then some (a.setWidth 32) else none

/-- The address as a number. -/
def toNat : Addr → Nat
  | invalid => 0
  | v4 a => a.toNat
  | v6 a => a.toNat

/-- `Compare`: shorter families first, then the numeric order. -/
def le (x y : Addr) : Bool :=
  decide (x.bitLen < y.bitLen) || (decide (x.bitLen = y.bitLen) && decide (x.toNat ≤ y.toNat))

/-- The address after this one; the zero value at the end of the family. -/
def next : Addr → Addr
  | invalid => invalid
  | v4 a => if a = BitVec.allOnes 32 then invalid else v4 (a + 1)
  | v6 a => if a = BitVec.allOnes 128 then invalid else v6 (a + 1)

/-- An IPv4 address from its four bytes. -/
def ofBytes (b₀ b₁ b₂ b₃ : Nat) : Addr :=
  v4 (BitVec.ofNat 32 (((b₀ * 256 + b₁) * 256 + b₂) * 256 + b₃))

/-- Within a family an address is known by its number. -/
theorem toNat_inj {x y : Addr} (hb : x.bitLen = y.bitLen) (h : x.toNat = y.toNat) : x = y := by
  cases x <;> cases y <;> simp_all [bitLen, toNat, BitVec.toNat_inj]

/-- The next address, where there is one, has the next number. -/
theorem toNat_next {x : Addr} (h : x.next.isValid = true) : x.next.toNat = x.toNat + 1 := by
  cases x with
  | invalid => exact absurd h (by simp [next, isValid])
  | v4 a =>
    by_cases ha : a = BitVec.allOnes 32
    · exact absurd h (by simp [next, ha, isValid])
    · simp only [next, ha, if_false, toNat]
      rw [← BitVec.toNat_inj, BitVec.toNat_allOnes] at ha
      have := a.isLt
      rw [BitVec.toNat_add, Nat.mod_eq_of_lt (by simp; omega)]
      rfl
  | v6 a =>
    by_cases ha : a = BitVec.allOnes 128
    · exact absurd h (by simp [next, ha, isValid])
    · simp only [next, ha, if_false, toNat]
      rw [← BitVec.toNat_inj, BitVec.toNat_allOnes] at ha
      have := a.isLt
      rw [BitVec.toNat_add, Nat.mod_eq_of_lt (by simp; omega)]
      rfl

/-- The order of addresses is transitive. -/
theorem le_trans {x y z : Addr} (hxy : x.le y = true) (hyz : y.le z = true) : x.le z = true := by
  simp only [le, Bool.or_eq_true, Bool.and_eq_true, decide_eq_true_eq] at *
  omega

/-- The order of addresses is antisymmetric. -/
theorem le_antisymm {x y : Addr} (hxy : x.le y = true) (hyx : y.le x = true) : x = y := by
  simp only [le, Bool.or_eq_true, Bool.and_eq_true, decide_eq_true_eq] at *
  exact toNat_inj (by omega) (by omega)

/-- The order of addresses is total. -/
theorem le_total (x y : Addr) : (x.le y || y.le x) = true := by
  simp only [le, Bool.or_eq_true, Bool.and_eq_true, decide_eq_true_eq]
  omega

/-! ### Text -/

/-- The `i`-th byte of an IPv4 address, most significant first. -/
def byte (a : BitVec 32) (i : Nat) : Nat := a.toNat / 256 ^ (3 - i) % 256

/-- Dotted decimal. -/
def text4 (a : BitVec 32) : String :=
  s!"{byte a 0}.{byte a 1}.{byte a 2}.{byte a 3}"

/-- The eight 16-bit groups of an IPv6 address. -/
def groups (a : BitVec 128) : List Nat :=
  (List.range 8).map fun i => a.toNat / 65536 ^ (7 - i) % 65536

/-- Length of the run of zero groups at the head. -/
def zeroRun : List Nat → Nat
  | 0 :: gs => zeroRun gs + 1
  | _ => 0

/-- The first longest run of at least two zero groups, as start and length. -/
def longestZeros (gs : List Nat) : Nat × Nat :=
  (List.range 8).foldl (fun best i =>
    let l := zeroRun (gs.drop i)
    if 2 ≤ l ∧ best.2 < l then (i, l) else best) (8, 0)

/-- A number in hexadecimal, without leading zeros. -/
def hex (n : Nat) : String := String.ofList (Nat.toDigits 16 n)

/-- The canonical IPv6 text, with the longest run of zeros compressed; 4-in-6 is dotted. -/
def text6 (a : BitVec 128) : String :=
  if a.toNat / 2 ^ 32 = 65535 then "::ffff:" ++ text4 (a.truncate 32) else
  let gs := groups a
  let z := longestZeros gs
  if z.2 = 0 then ":".intercalate (gs.map hex) else
  ":".intercalate ((gs.take z.1).map hex) ++ "::" ++ ":".intercalate ((gs.drop (z.1 + z.2)).map hex)

/-- `Addr.String`. -/
def text : Addr → String
  | invalid => "invalid IP"
  | v4 a => text4 a
  | v6 a => text6 a

end Addr

/-! ## Prefixes -/

/-- A `netip.Prefix`: an address and how many of its leading bits are fixed. -/
structure Prefix where
  addr : Addr
  bits : Nat
  deriving DecidableEq, Repr

namespace Prefix

/-- The prefix has an address, and no more bits than it. -/
def isValid (p : Prefix) : Bool := p.addr.isValid && decide (p.bits ≤ p.addr.bitLen)

/-- The prefix is an IPv4 one. -/
def is4 (p : Prefix) : Bool := p.addr.is4 && decide (p.bits ≤ 32)

/-- The prefix with the bits after the first `bits` cleared. -/
def masked (p : Prefix) : Prefix :=
  match p.addr with
  | .invalid => p
  | .v4 a => ⟨.v4 (a >>> (32 - p.bits) <<< (32 - p.bits)), p.bits⟩
  | .v6 a => ⟨.v6 (a >>> (128 - p.bits) <<< (128 - p.bits)), p.bits⟩

/-- The prefix contains the address: one family, and the leading bits agree. -/
def contains (p : Prefix) (a : Addr) : Bool :=
  match p.addr, a with
  | .v4 x, .v4 y => decide (p.bits ≤ 32) && x >>> (32 - p.bits) == y >>> (32 - p.bits)
  | .v6 x, .v6 y => decide (p.bits ≤ 128) && x >>> (128 - p.bits) == y >>> (128 - p.bits)
  | _, _ => false

/-- The two prefixes have an address in common: they agree on the shorter one's bits. -/
def overlaps (p q : Prefix) : Bool :=
  p.isValid && q.isValid &&
    (contains ⟨p.addr, min p.bits q.bits⟩ q.addr)

/-- `Prefix.String`. -/
def text (p : Prefix) : String :=
  if p.isValid then p.addr.text ++ "/" ++ toString p.bits else "invalid Prefix"

/-- The prefix of a single IPv4 host. -/
def host (a : Addr) : Prefix := ⟨a, 32⟩

end Prefix

/-! ## Parsing -/

/-- A decimal number without a leading zero, at most `max`. -/
def parseDecimal (max : Nat) (cs : List Char) : Option Nat :=
  if cs = [] ∨ ¬ cs.all Char.isDigit ∨ (1 < cs.length ∧ cs.head? = some '0') then none else
  let n := Nat.ofDigitChars 10 cs 0
  if n ≤ max then some n else none

/-- Dotted decimal: four fields, each a byte. -/
def parseAddr4 (cs : List Char) : Option (BitVec 32) := do
  let fields ← (cs.splitOn '.').mapM (parseDecimal 255)
  if fields.length = 4 then
    some (BitVec.ofNat 32 (fields.foldl (fun n b => n * 256 + b) 0))
  else none

/-- The value of a hexadecimal digit. -/
def hexDigit (c : Char) : Option Nat :=
  if c.isDigit then some (c.toNat - '0'.toNat)
  else if 'a' ≤ c ∧ c ≤ 'f' then some (c.toNat - 'a'.toNat + 10)
  else if 'A' ≤ c ∧ c ≤ 'F' then some (c.toNat - 'A'.toNat + 10)
  else none

/-- One group of an IPv6 address: one to four hexadecimal digits. -/
def parseGroup (cs : List Char) : Option Nat :=
  if cs = [] ∨ 4 < cs.length then none else
  (cs.mapM hexDigit).map fun ds => ds.foldl (fun n d => n * 16 + d) 0

/-- Colon-separated groups; where `last`, the final field may be dotted decimal for two groups. -/
def parseGroups (last : Bool) (cs : List Char) : Option (List Nat) :=
  if cs = [] then some [] else
  let fields := cs.splitOn ':'
  match fields.getLast? with
  | some f =>
    if last ∧ '.' ∈ f then do
      let gs ← fields.dropLast.mapM parseGroup
      let a ← parseAddr4 f
      some (gs ++ [a.toNat / 65536, a.toNat % 65536])
    else fields.mapM parseGroup
  | none => none

/-- Split at the first `::`. -/
def splitEllipsis : List Char → Option (List Char × List Char)
  | ':' :: ':' :: cs => some ([], cs)
  | c :: cs => (splitEllipsis cs).map fun (l, r) => (c :: l, r)
  | [] => none

/-- Eight groups of hexadecimal digits, one run of zero groups left out. -/
def parseAddr6 (cs : List Char) : Option (BitVec 128) := do
  let gs ← match splitEllipsis cs with
    | none => do
      let gs ← if cs = [] then none else parseGroups true cs
      if gs.length = 8 then some gs else none
    | some (l, r) => do
      let ls ← parseGroups false l
      let rs ← parseGroups true r
      if ls.length + rs.length < 8 then
        some (ls ++ List.replicate (8 - ls.length - rs.length) 0 ++ rs)
      else none
  some (BitVec.ofNat 128 (gs.foldl (fun n g => n * 65536 + g) 0))

/-- `ParseAddr`, without zones: the first `.` or `:` decides the family. -/
def parseAddr (cs : List Char) : Option Addr :=
  match cs.find? fun c => c == '.' || c == ':' || c == '%' with
  | some '.' => (parseAddr4 cs).map .v4
  | some ':' => (parseAddr6 cs).map .v6
  | _ => none

/-- `ParsePrefix`: an address, the last `/`, and a bit count of at most the family's length. -/
def parsePrefix (s : String) : Option Prefix := do
  let cs := s.toList
  if '/' ∈ cs then
    let bits := (cs.reverse.takeWhile (· ≠ '/')).reverse
    let a ← parseAddr (cs.take (cs.length - bits.length - 1))
    let n ← parseDecimal a.bitLen bits
    some ⟨a, n⟩
  else none

example : parsePrefix "192.168.2.0/24" = some ⟨.ofBytes 192 168 2 0, 24⟩ := by decide
example : (parsePrefix "fd00::1:0/64").map Prefix.text = some "fd00::1:0/64" := by decide
example : parsePrefix "192.168.02.0/24" = none := by decide

/-! ## Coverage -/

/-- Two addresses agree above a bit when their numbers do. -/
theorem shiftRight_eq_iff (x y : BitVec 32) (k : Nat) :
    x >>> k = y >>> k ↔ x.toNat / 2 ^ k = y.toNat / 2 ^ k := by
  rw [← BitVec.toNat_inj, BitVec.toNat_ushiftRight, BitVec.toNat_ushiftRight,
    Nat.shiftRight_eq_div_pow, Nat.shiftRight_eq_div_pow]

/-- Membership of an IPv4 address, as an equation between quotients. -/
theorem contains_v4 {p : Prefix} {y : BitVec 32} :
    p.contains (.v4 y) = true ↔
      ∃ x, p.addr = .v4 x ∧ p.bits ≤ 32 ∧
        x.toNat / 2 ^ (32 - p.bits) = y.toNat / 2 ^ (32 - p.bits) := by
  obtain ⟨a, b⟩ := p
  cases a <;> simp [Prefix.contains, shiftRight_eq_iff]

@[simp] theorem not_contains_invalid (p : Prefix) : p.contains .invalid = false := by
  obtain ⟨a, b⟩ := p
  cases a <;> rfl

@[simp] theorem Prefix.is4_masked (p : Prefix) : p.masked.is4 = p.is4 := by
  obtain ⟨addr, bits⟩ := p
  cases addr <;> rfl

/-- Only a valid prefix contains an address. -/
theorem Prefix.isValid_of_contains {p : Prefix} {a : Addr} (h : p.contains a = true) :
    p.isValid = true := by
  obtain ⟨x, b⟩ := p
  cases x <;> cases a <;>
    simp_all [Prefix.isValid, Prefix.contains, Addr.isValid, Addr.bitLen]

/-- An invalid prefix contains nothing. -/
theorem Prefix.contains_of_isValid_false {p : Prefix} {a : Addr} (h : p.isValid = false) :
    p.contains a = false := by
  by_contra hc
  rw [Prefix.isValid_of_contains (by simpa using hc)] at h
  exact absurd h (by simp)

/-- A host prefix contains its address only. -/
theorem host_contains {a : Addr} {y : BitVec 32} :
    (Prefix.host a).contains (.v4 y) = true ↔ a = .v4 y := by
  rw [contains_v4]
  simp only [Prefix.host, Nat.le_refl, Nat.sub_self, Nat.pow_zero, Nat.div_one, true_and]
  constructor
  · rintro ⟨x, rfl, h⟩
    rw [BitVec.eq_of_toNat_eq h]
  · rintro rfl
    exact ⟨y, rfl, rfl⟩

/-- Equal leading bits stay equal when fewer are looked at. -/
theorem shiftRight_coarse {w : Nat} {x y : BitVec w} {j k : Nat} (hjk : j ≤ k) (h : x >>> j = y >>> j) :
    x >>> k = y >>> k := by
  obtain ⟨d, rfl⟩ := Nat.exists_eq_add_of_le hjk
  rw [BitVec.shiftRight_add, BitVec.shiftRight_add, h]

theorem masked_shiftRight {w : Nat} (x : BitVec w) (k : Nat) : x >>> k <<< k >>> k = x >>> k := by
  apply BitVec.eq_of_getLsbD_eq
  intro i hi
  rw [BitVec.getLsbD_ushiftRight, BitVec.getLsbD_shiftLeft, BitVec.getLsbD_ushiftRight]
  by_cases hik : k + i < w
  · simp [hik]
  · simp [hik, BitVec.getLsbD_of_ge x (k + i) (by omega)]

/-- A prefix contains addresses of its own family. -/
theorem is4_of_contains {p : Prefix} {a : Addr} (hp : p.addr.is4 = true) (ha : p.contains a = true) :
    a.is4 = true := by
  obtain ⟨x, bits⟩ := p
  cases x <;> cases a <;> simp_all [Addr.is4, Prefix.contains]

/-- Where the network address has four bytes, so has every address of the prefix. -/
theorem as4_of_contains {p : Prefix} {a : Addr} (hp : p.masked.addr.as4.isSome = true)
    (ha : p.contains a = true) : a.as4.isSome = true := by
  obtain ⟨x, bits⟩ := p
  cases x with
  | invalid => exact absurd ha (by simp [Prefix.contains])
  | v4 x =>
    cases a with
    | v4 y => rfl
    | _ => exact absurd ha (by simp [Prefix.contains])
  | v6 x =>
    cases a with
    | v6 y =>
      simp only [Prefix.contains, Bool.and_eq_true, beq_iff_eq] at ha
      simp only [Prefix.masked, Addr.as4] at hp
      split at hp
      · rename_i hmapped
        have hk : 128 - bits ≤ 32 := by
          by_contra hk
          -- the mask would have cleared the lowest bit of `ffff`
          have hbit := congrArg (fun b => BitVec.getLsbD b 0) hmapped
          simp only [BitVec.getLsbD_ushiftRight, BitVec.getLsbD_shiftLeft] at hbit
          simp [show 32 < 128 - bits by omega] at hbit
        have hnet := shiftRight_coarse hk (masked_shiftRight x (128 - bits))
        have hsame := shiftRight_coarse hk ha.2
        simp only [Addr.as4, ← hsame, ← hnet, hmapped, if_true, Option.isSome_some]
      · exact absurd hp (by simp)
    | _ => exact absurd ha (by simp [Prefix.contains])

/-- The number with its last `k` bits cleared. -/
theorem toNat_clear {w : Nat} (x : BitVec w) (k : Nat) : (x >>> k <<< k).toNat = x.toNat / 2 ^ k * 2 ^ k := by
  have hle := Nat.div_mul_le_self x.toNat (2 ^ k)
  have hx := x.isLt
  rw [BitVec.toNat_shiftLeft, BitVec.toNat_ushiftRight, Nat.shiftRight_eq_div_pow, Nat.shiftLeft_eq]
  exact Nat.mod_eq_of_lt (by omega)

/-- An IPv4 prefix is an interval that starts at its network address. -/
theorem contains_interval {p : Prefix} (hp : p.is4 = true) : ∃ n : BitVec 32, p.masked.addr = .v4 n ∧
    ∀ y : BitVec 32, p.contains (.v4 y) = true ↔
      n.toNat ≤ y.toNat ∧ y.toNat < n.toNat + 2 ^ (32 - p.bits) := by
  obtain ⟨x, bits⟩ := p
  cases x with
  | invalid | v6 => exact absurd hp (by simp [Prefix.is4, Addr.is4])
  | v4 x =>
    have hb : bits ≤ 32 := by simpa [Prefix.is4, Addr.is4] using hp
    have hpos : 0 < 2 ^ (32 - bits) := Nat.two_pow_pos _
    have hnet : (x >>> (32 - bits) <<< (32 - bits)).toNat = x.toNat / 2 ^ (32 - bits) * 2 ^ (32 - bits) :=
      toNat_clear x _
    refine ⟨_, rfl, fun y => ?_⟩
    show _ ↔ _ ≤ y.toNat ∧ y.toNat < _ + 2 ^ (32 - bits)
    rw [hnet, contains_v4]
    constructor
    · rintro ⟨z, hz, -, hq⟩
      obtain rfl := Addr.v4.inj hz
      have hq' : y.toNat / 2 ^ (32 - bits) = x.toNat / 2 ^ (32 - bits) := hq.symm
      obtain ⟨hlow, hhigh⟩ := (Nat.div_eq_iff hpos).mp hq'
      exact ⟨hlow, by omega⟩
    · rintro ⟨hlow, hhigh⟩
      exact ⟨x, rfl, hb, ((Nat.div_eq_iff hpos).mpr ⟨hlow, by omega⟩).symm⟩

/-- The addresses of an IPv4 prefix are IPv4 addresses. -/
theorem v4_of_contains {p : Prefix} {a : Addr} (hp : p.is4 = true) (ha : p.contains a = true) :
    ∃ y : BitVec 32, a = .v4 y :=
  Addr.is4_iff.mp (is4_of_contains ((Bool.and_eq_true _ _).mp hp).1 ha)

/-- The address after one is the next number, if there is one. -/
theorem next_v4 {y : BitVec 32} (h : (Addr.v4 y).next.isValid = true) :
    ∃ y' : BitVec 32, (Addr.v4 y).next = .v4 y' ∧ y'.toNat = y.toNat + 1 := by
  have hnum := Addr.toNat_next h
  by_cases hy : y = BitVec.allOnes 32
  · exact absurd h (by simp [Addr.next, hy, Addr.isValid])
  · have hnext : (Addr.v4 y).next = .v4 (y + 1) := if_neg hy
    rw [hnext] at hnum
    exact ⟨y + 1, hnext, hnum⟩

/-- Below the last address there is a next one. -/
theorem next_isValid {y z : BitVec 32} (h : y.toNat < z.toNat) : (Addr.v4 y).next.isValid = true := by
  have hz := z.isLt
  have hy : y ≠ BitVec.allOnes 32 := by
    rintro rfl
    rw [BitVec.toNat_allOnes] at h
    omega
  rw [show (Addr.v4 y).next = .v4 (y + 1) from if_neg hy]
  rfl

/-- Two prefixes with a common address overlap. -/
theorem overlaps_of_contains {p q : Prefix} {a : Addr} (hp : p.contains a = true) (hq : q.contains a = true) :
    p.overlaps q = true := by
  have hv := Prefix.isValid_of_contains hp
  have hw := Prefix.isValid_of_contains hq
  obtain ⟨x, m⟩ := p
  obtain ⟨z, n⟩ := q
  unfold Prefix.overlaps
  rw [hv, hw, Bool.true_and, Bool.true_and]
  -- both agree with the address on the shorter one's bits
  cases x <;> cases z <;> cases a <;> simp only [Prefix.contains, Bool.and_eq_true, decide_eq_true_eq, beq_iff_eq,
    Bool.false_eq_true] at hp hq ⊢
  all_goals
    exact ⟨Nat.le_trans (Nat.min_le_left _ _) hp.1,
      (shiftRight_coarse (Nat.sub_le_sub_left (Nat.min_le_left _ _) _) hp.2).trans
        (shiftRight_coarse (Nat.sub_le_sub_left (Nat.min_le_right _ _) _) hq.2).symm⟩

/-- Overlapping is symmetric. -/
theorem overlaps_comm (p q : Prefix) : p.overlaps q = q.overlaps p := by
  obtain ⟨a, m⟩ := p
  obtain ⟨b, n⟩ := q
  unfold Prefix.overlaps
  rw [Bool.and_comm (Prefix.isValid ⟨a, m⟩), Nat.min_comm m n]
  cases a <;> cases b <;> simp only [Prefix.contains, BEq.comm (α := BitVec _)]

end Netip
