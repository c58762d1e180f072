import BeautyAwg.Awg.Model
import BeautyAwg.Lib.Draws

/-!
# `Awg.Params`: the obfuscation profile

`NewRandomParams` and `Validate` (`internal/awg/params.go`). The header loop has no bound in the source; here
`fuel` bounds the draws of one header. The lemmas read a finished run back: which draws each value comes
from.
-/

namespace BeautyAwg
namespace Awg

/-- `crypto/rand`: what call number `i` answers, asked for a value below `n`. -/
structure Rand where
  int : Nat → Nat → Except String Nat
  int_lt : ∀ {i n v}, int i n = .ok v → v < n

/-- A source that gives the numbers of the list in turn, then zeros. -/
def Rand.script (l : List Nat) : Rand where
  int i n := if l.getD i 0 < n then .ok (l.getD i 0) else .error "out of range"
  int_lt {i n v} h := by
    split at h
    · rename_i hlt
      exact Except.ok.inj h ▸ hlt
    · cases h

/-- Why no profile was drawn: the source of randomness failed, or a panic of `randIntMust`. -/
inductive ParamsErr where
  | reader (e : String)
  | panicked (e : String)
  deriving DecidableEq, Repr

namespace Rand

variable (r : Rand)

/-- A value from `min` to `max`. -/
def randUint32 (i : Nat) (min max : BitVec 32) : Except ParamsErr (BitVec 32) :=
  match r.int i (max - min + 1).toNat with
  | .error e => .error (.reader e)
  | .ok n => .ok (min + BitVec.ofNat 32 n)

/-- The same for integers; a source that fails is a panic. -/
def randIntMust (i : Nat) (min max : Int) : Except ParamsErr Int :=
  match r.int i (max - min + 1).toNat with
  | .error e => .error (.panicked e)
  | .ok n => .ok (min + n)

/-- One round of the header loop. -/
def header (i : Nat) : Except ParamsErr (BitVec 32) := r.randUint32 i 0x10000000 0x7FFFFFFF

/-- The header loop makes `n` draws: the fewest with four values. -/
def HeaderDraws (n : Nat) : Prop := IsLeast {n | 4 ≤ (Draws.drawn r.header n).card} n

end Rand

open Draws

/-- `NewRandomParams`. `none`: some header took more than `fuel` draws. -/
def newRandomParams (r : Rand) (fuel : Nat) : Option (Except ParamsErr ObfuscationParams) :=
  match drawDistinct r.header fuel 4 [] 0 with
  | none => none
  | some (.error e) => some (.error e)
  | some (.ok (h, i)) => some do
    let jc ← r.randIntMust i 3 10
    let s1 ← r.randIntMust (i + 1) 15 150
    let s2 ← r.randIntMust (i + 2) 15 150
    return {
      jc
      jmin := 50
      jmax := 1000
      s1
      s2
      h1 := h.getD 0 0
      h2 := h.getD 1 0
      h3 := h.getD 2 0
      h4 := h.getD 3 0 }

namespace ObfuscationParams

variable (p : ObfuscationParams)

/-- The four magic headers. -/
def headers : List (BitVec 32) := [p.h1, p.h2, p.h3, p.h4]

/-- The loop of `Validate` over the headers. -/
def seenLoop : List (BitVec 32) → List (BitVec 32) → Except String Unit
  | _, [] => .ok ()
  | seen, v :: vs => if v ∈ seen then .error "H1..H4 must be distinct" else seenLoop (v :: seen) vs

/-- What AmneziaWG asks of a profile, as far as the source checks it. -/
def validate : Except String Unit :=
  if p.jmin ≥ p.jmax then
    .error ("Jmin(" ++ toString p.jmin ++ ") must be < Jmax(" ++ toString p.jmax ++ ")")
  else if p.jc < 1 ∨ p.jc > 128 then .error ("Jc(" ++ toString p.jc ++ ") out of range 1..128")
  else seenLoop [] p.headers

/-- What the protocol asks of a profile: headers apart, none of them a message type of WireGuard, junk within
    its bounds, and initiation and response of different sizes once padded. -/
structure Usable : Prop where
  distinct : p.headers.Nodup
  types : ∀ h ∈ p.headers, ¬ (1 ≤ h.toNat ∧ h.toNat ≤ 4)
  junkCount : 1 ≤ p.jc ∧ p.jc ≤ 128
  junkSize : p.jmin < p.jmax ∧ p.jmax ≤ 1280
  padding : 148 + p.s1 ≠ 92 + p.s2

theorem seenLoop_ok {seen vs : List (BitVec 32)} :
    seenLoop seen vs = .ok () ↔ vs.Nodup ∧ ∀ v ∈ vs, v ∉ seen := by
  induction vs generalizing seen with
  | nil => simp [seenLoop]
  | cons v vs ih =>
    rw [seenLoop]
    split
    · rename_i hv
      exact iff_of_false (by simp) fun h => h.2 v List.mem_cons_self hv
    · rename_i hv
      rw [ih, List.nodup_cons]
      constructor
      · rintro ⟨hnd, hall⟩
        refine ⟨⟨fun hmem => hall v hmem List.mem_cons_self, hnd⟩, fun w hw => ?_⟩
        rcases List.mem_cons.mp hw with rfl | hw
        · exact hv
        · exact fun hseen => hall w hw (List.mem_cons_of_mem v hseen)
      · rintro ⟨⟨hvs, hnd⟩, hall⟩
        refine ⟨hnd, fun w hw hmem => ?_⟩
        rcases List.mem_cons.mp hmem with rfl | hseen
        · exact hvs hw
        · exact hall w (List.mem_cons_of_mem v hw) hseen

theorem validate_ok : p.validate = .ok () ↔ p.jmin < p.jmax ∧ (1 ≤ p.jc ∧ p.jc ≤ 128) ∧ p.headers.Nodup := by
  rw [validate]
  split
  · exact iff_of_false (by simp) fun h => by omega
  · split
    · exact iff_of_false (by simp) fun h => by omega
    · rw [seenLoop_ok]
      constructor
      · exact fun h => ⟨by omega, by omega, h.1⟩
      · exact fun h => ⟨h.2.2, fun v _ => List.not_mem_nil⟩

end ObfuscationParams

/-! ## A finished run -/

variable {r : Rand} {fuel i : Nat} {p : ObfuscationParams}

theorem randIntMust_ok {min max v : Int} :
    r.randIntMust i min max = .ok v ↔ ∃ n, r.int i (max - min + 1).toNat = .ok n ∧ v = min + n := by
  rw [Rand.randIntMust]
  cases r.int i (max - min + 1).toNat with
  | error e => simp
  | ok n => simp [eq_comm]

theorem header_range {v : BitVec 32} (h : r.header i = .ok v) : 0x10000000 ≤ v.toNat ∧ v.toNat ≤ 0x7FFFFFFF := by
  rw [Rand.header, Rand.randUint32] at h
  split at h
  · cases h
  · rename_i n hint
    have hn : n < 0x70000000 := r.int_lt hint
    obtain rfl := Except.ok.inj h
    rw [BitVec.toNat_add, BitVec.toNat_ofNat]
    have : (0x10000000 : BitVec 32).toNat = 0x10000000 := rfl
    omega

/-- The draws that a finished profile is made of. -/
structure MadeOf (r : Rand) (p : ObfuscationParams) (n : Nat) : Prop where
  least : r.HeaderDraws n
  distinct : p.headers.Nodup
  drawn : ∀ h ∈ p.headers, ∃ i, r.header i = .ok h
  jc : ∃ a, r.int n 8 = .ok a ∧ p.jc = 3 + a
  s1 : ∃ a, r.int (n + 1) 136 = .ok a ∧ p.s1 = 15 + a
  s2 : ∃ a, r.int (n + 2) 136 = .ok a ∧ p.s2 = 15 + a
  sizes : p.jmin = 50 ∧ p.jmax = 1000

theorem exists_madeOf (h : newRandomParams r fuel = some (.ok p)) : ∃ n, MadeOf r p n := by
  rw [newRandomParams] at h
  split at h
  · cases h
  · simp at h
  · rename_i l n hl
    obtain ⟨hc, hlen⟩ := collected_drawDistinct collected_nil hl
    obtain ⟨a, b, c, d, rfl⟩ : ∃ a b c d, l = [a, b, c, d] := by
      match l, hlen with
      | [a, b, c, d], _ => exact ⟨a, b, c, d, rfl⟩
    have hrun := Option.some.inj h
    cases hjc : r.randIntMust n 3 10 with
    | error e => simp [hjc, bind, Except.bind] at hrun
    | ok jc =>
      cases hs1 : r.randIntMust (n + 1) 15 150 with
      | error e => simp [hjc, hs1, bind, Except.bind] at hrun
      | ok s1 =>
        cases hs2 : r.randIntMust (n + 2) 15 150 with
        | error e => simp [hjc, hs1, hs2, bind, Except.bind] at hrun
        | ok s2 =>
          simp only [hjc, hs1, hs2, bind, Except.bind, pure, Except.pure] at hrun
          obtain rfl := Except.ok.inj hrun
          refine ⟨n, hc.least, hc.nodup, fun h hmem => ?_, randIntMust_ok.mp hjc, randIntMust_ok.mp hs1,
            randIntMust_ok.mp hs2, rfl, rfl⟩
          obtain ⟨i, -, hi⟩ := mem_drawn.mp ((hc.mem h).mp hmem)
          exact ⟨i, hi⟩

/-- A source that never fails and has four headers lets the run finish. -/
theorem exists_newRandomParams {n : Nat} (hok : ∀ i n, 0 < n → ∃ v, r.int i n = .ok v)
    (hn : 4 ≤ (drawn r.header n).card) : ∃ p, newRandomParams r n = some (.ok p) := by
  have hheader : ∀ m < n, ∃ v, r.header m = .ok v := fun m _ => by
    obtain ⟨v, hv⟩ := hok m ((0x7FFFFFFF : BitVec 32) - 0x10000000 + 1).toNat (by decide)
    exact ⟨_, by rw [Rand.header, Rand.randUint32, hv]⟩
  have hint : ∀ i (min max : Int), min ≤ max → ∃ v, r.randIntMust i min max = .ok v := fun i min max hle => by
    obtain ⟨v, hv⟩ := hok i (max - min + 1).toNat (by omega)
    exact ⟨min + v, randIntMust_ok.mpr ⟨v, hv, rfl⟩⟩
  obtain ⟨l, j, hl, -⟩ := exists_drawDistinct hheader collected_nil (by simpa using hn)
  obtain ⟨jc, hjc⟩ := hint j 3 10 (by decide)
  obtain ⟨s1, hs1⟩ := hint (j + 1) 15 150 (by decide)
  obtain ⟨s2, hs2⟩ := hint (j + 2) 15 150 (by decide)
  rw [newRandomParams, hl]
  simp only [hjc, hs1, hs2, bind, Except.bind, pure, Except.pure]
  exact ⟨_, rfl⟩

end Awg
end BeautyAwg
