import BeautyAwg.Store.Correctness.Addresses

/-!
# `Store.Correctness.Allocation`: `AllocateIP` returns the least free address

The loop of `AllocateIP` has no bound of its own: it ends because the addresses after the pool's first leave
the pool, or the address space, at last. `AllocEnds` is the loop without fuel; `allocLoop_ends` is that the
fuel `allocateIP` gives it is enough, for every pool from /0 to /32.

## Contents
- **Bytes.** `lastAddrBytes`, the source's loop over four bytes; `lastAddr_bytes`.
- **The loop.** `AllocEnds`, `ends_least`, `allocLoop_ends`.
- **The theorem.** `allocateIP_least`.
-/

namespace BeautyAwg
namespace Store

open Netip Txn

/-! ## Bytes -/

/-- `As4`, most significant byte first. -/
def bytesOf (a : BitVec 32) (i : Fin 4) : BitVec 8 := a.extractLsb' (8 * (3 - i)) 8

/-- `AddrFrom4`, as a word. -/
def wordOf (bytes : Fin 4 → BitVec 8) : BitVec 32 := bytes 0 ++ bytes 1 ++ bytes 2 ++ bytes 3

/-- The byte that holds host bit `i`. -/
def byteIdx (i : Nat) : Fin 4 := ⟨3 - i / 8, by omega⟩

/-- One turn of the loop of `lastAddr`. -/
def setHostBit (bytes : Fin 4 → BitVec 8) (i : Nat) : Fin 4 → BitVec 8 :=
  Function.update bytes (byteIdx i) (bytes (byteIdx i) ||| 1#8 <<< (i % 8))

/-- `lastAddr` as the source has it, byte by byte. -/
def lastAddrBytes (p : Prefix) : Option Addr :=
  p.masked.addr.as4.map fun a => .v4 (wordOf ((List.range (32 - p.bits)).foldl setHostBit (bytesOf a)))

theorem byteIdx_eq {i : Nat} {j : Fin 4} (h : 3 - i / 8 = j) : byteIdx i = j := Fin.ext h

/-- A bit of an address is a bit of one of its bytes. -/
theorem getLsbD_wordOf {bytes : Fin 4 → BitVec 8} {k : Nat} (hk : k < 32) :
    (wordOf bytes).getLsbD k = (bytes (byteIdx k)).getLsbD (k % 8) := by
  simp only [wordOf, BitVec.getLsbD_append]
  by_cases h₀ : k < 8
  · rw [if_pos h₀, byteIdx_eq (j := 3) (show 3 - k / 8 = 3 by omega), Nat.mod_eq_of_lt h₀]
  · rw [if_neg h₀]
    by_cases h₁ : k - 8 < 8
    · rw [if_pos h₁, byteIdx_eq (j := 2) (show 3 - k / 8 = 2 by omega), show k % 8 = k - 8 by omega]
    · rw [if_neg h₁]
      by_cases h₂ : k - 8 - 8 < 8
      · rw [if_pos h₂, byteIdx_eq (j := 1) (show 3 - k / 8 = 1 by omega), show k % 8 = k - 8 - 8 by omega]
      · rw [if_neg h₂, byteIdx_eq (j := 0) (show 3 - k / 8 = 0 by omega), show k % 8 = k - 8 - 8 - 8 by omega]

/-- A bit of a byte is a bit of the address. -/
theorem getLsbD_bytesOf (a : BitVec 32) {k : Nat} (hk : k < 32) :
    (bytesOf a (byteIdx k)).getLsbD (k % 8) = a.getLsbD k := by
  have hpos : 8 * (3 - (3 - k / 8)) + k % 8 = k := by omega
  show (a.extractLsb' (8 * (3 - (3 - k / 8))) 8).getLsbD (k % 8) = _
  rw [BitVec.getLsbD_extractLsb', hpos, decide_eq_true (Nat.mod_lt _ (by omega)), Bool.true_and]

/-- One turn sets one bit of the word. -/
theorem getLsbD_setHostBit {bytes : Fin 4 → BitVec 8} {i k : Nat} (hi : i < 32) (hk : k < 32) :
    (setHostBit bytes i (byteIdx k)).getLsbD (k % 8) =
      ((bytes (byteIdx k)).getLsbD (k % 8) || decide (k = i)) := by
  have hbyte : byteIdx k = byteIdx i ↔ k / 8 = i / 8 := by
    rw [byteIdx, byteIdx, Fin.mk.injEq]
    omega
  unfold setHostBit
  by_cases h : byteIdx k = byteIdx i
  · rw [h, Function.update_self, BitVec.getLsbD_or, BitVec.getLsbD_shiftLeft, BitVec.getLsbD_one]
    have hsame : k = i ↔ k % 8 = i % 8 := by
      have := hbyte.mp h
      omega
    congr 1
    rw [Bool.eq_iff_iff]
    simp only [Bool.and_eq_true, decide_eq_true_eq, Bool.not_eq_true', decide_eq_false_iff_not]
    omega
  · rw [Function.update_of_ne h]
    have hne : k ≠ i := fun he => h (by rw [he])
    rw [decide_eq_false hne, Bool.or_false]

/-- The loop over the host bits sets the lowest ones and leaves the others. -/
theorem getLsbD_hostBits (bytes : Fin 4 → BitVec 8) {n k : Nat} (hn : n ≤ 32) (hk : k < 32) :
    ((List.range n).foldl setHostBit bytes (byteIdx k)).getLsbD (k % 8) =
      ((bytes (byteIdx k)).getLsbD (k % 8) || decide (k < n)) := by
  induction n with
  | zero => simp
  | succ n ih =>
    rw [List.range_succ, List.foldl_append, List.foldl_cons, List.foldl_nil, getLsbD_setHostBit (by omega) hk,
      ih (by omega), Bool.or_assoc]
    congr 1
    rw [Bool.eq_iff_iff]
    simp only [Bool.or_eq_true, decide_eq_true_eq]
    omega

/-- **The bytes make up the word**: setting the host bits one by one is setting them at once. -/
theorem lastAddr_bytes (p : Prefix) : lastAddrBytes p = lastAddr p := by
  unfold lastAddrBytes lastAddr
  refine congrArg (p.masked.addr.as4.map ·) (funext fun a => congrArg Addr.v4 ?_)
  refine BitVec.eq_of_getLsbD_eq fun k hk => ?_
  rw [getLsbD_wordOf hk, getLsbD_hostBits _ (Nat.sub_le _ _) hk, getLsbD_bytesOf a hk, BitVec.getLsbD_or,
    BitVec.getLsbD_ofNat, Nat.testBit_two_pow_sub_one, decide_eq_true hk, Bool.true_and]

/-! ## The loop -/

/-- The loop of `AllocateIP` at an address ends, and with what. -/
inductive AllocEnds (pool : Prefix) (broadcast : Addr) (used : List Addr) : Addr → Option Addr → Prop
  | exhausted {a} (hout : ¬ (a.isValid = true ∧ pool.contains a = true)) : AllocEnds pool broadcast used a none
  | skip {a r} (hin : a.isValid = true ∧ pool.contains a = true) (hheld : a = broadcast ∨ a ∈ used)
      (hrest : AllocEnds pool broadcast used a.next r) : AllocEnds pool broadcast used a r
  | found {a} (hin : a.isValid = true ∧ pool.contains a = true) (hfree : ¬ (a = broadcast ∨ a ∈ used)) :
      AllocEnds pool broadcast used a (some a)

/-- An address that may be handed out. -/
structure Assignable (pool : Prefix) (broadcast : Addr) (used : List Addr) (a : Addr) : Prop where
  inPool : pool.contains a = true
  ne_network : a ≠ pool.masked.addr
  ne_last : a ≠ broadcast
  free : a ∉ used

/-- The result of a search is the least address with a property, or there is none. -/
def FindsLeast (P : Addr → Prop) (r : Option Addr) : Prop :=
  (∀ a, r = some a ↔ P a ∧ ∀ b, P b → a.toNat ≤ b.toNat) ∧ (r = none ↔ ∀ a, ¬ P a)

variable {pool : Prefix} {broadcast : Addr} {used : List Addr}

/-- What the loop ends with, started at an address after the network address and before which no address is
    assignable, is the least assignable address. -/
theorem ends_least {a : Addr} {r : Option Addr} {n : BitVec 32} (hpool : pool.is4 = true)
    (hnet : pool.masked.addr = .v4 n) (h : AllocEnds pool broadcast used a r)
    (hlow : a.isValid = true → ∃ y, a = .v4 y ∧ n.toNat < y.toNat)
    (hafter : ∀ f, Assignable pool broadcast used f → a.isValid = true ∧ a.toNat ≤ f.toNat) :
    FindsLeast (Assignable pool broadcast used) r := by
  obtain ⟨n', hnet', hiff⟩ := contains_interval hpool
  obtain rfl : n = n' := Addr.v4.inj (hnet.symm.trans hnet')
  induction h with
  | @exhausted a hout =>
    have hnone : ∀ f, ¬ Assignable pool broadcast used f := by
      intro f hf
      obtain ⟨hvalid, hle⟩ := hafter f hf
      obtain ⟨y, rfl, hlt⟩ := hlow hvalid
      obtain ⟨z, rfl⟩ := v4_of_contains hpool hf.inPool
      -- the start lies between the network address and an address of the pool
      have hz := ((hiff z).mp hf.inPool).2
      exact hout ⟨rfl, (hiff y).mpr ⟨Nat.le_of_lt hlt, Nat.lt_of_le_of_lt hle hz⟩⟩
    exact ⟨fun f => ⟨fun hf => absurd hf (by simp), fun hf => absurd hf.1 (hnone f)⟩, iff_of_true rfl hnone⟩
  | @skip a r hin hheld hrest ih =>
    obtain ⟨y, rfl, hlt⟩ := hlow hin.1
    refine ih (fun hvalid => ?_) fun f hf => ?_
    · obtain ⟨y', hnext, hnum⟩ := next_v4 hvalid
      exact ⟨y', hnext, by omega⟩
    · obtain ⟨z, rfl⟩ := v4_of_contains hpool hf.inPool
      have hne : y.toNat ≠ z.toNat := by
        intro he
        obtain rfl := BitVec.eq_of_toNat_eq he
        exact hheld.elim hf.ne_last hf.free
      have hle : y.toNat ≤ z.toNat := (hafter _ hf).2
      have hvalid := next_isValid (Nat.lt_of_le_of_ne hle hne)
      have hnum : (Addr.v4 y).next.toNat = y.toNat + 1 := Addr.toNat_next hvalid
      exact ⟨hvalid, show _ ≤ z.toNat by omega⟩
  | @found a hin hfree =>
    obtain ⟨y, rfl, hlt⟩ := hlow hin.1
    have hself : Assignable pool broadcast used (.v4 y) := by
      refine ⟨hin.2, fun he => ?_, fun he => hfree (.inl he), fun hu => hfree (.inr hu)⟩
      rw [hnet] at he
      rw [Addr.v4.inj he] at hlt
      exact Nat.lt_irrefl _ hlt
    refine ⟨fun f => ⟨?_, fun ⟨hf, hleast⟩ => ?_⟩, iff_of_false (by simp) fun hnone => hnone _ hself⟩
    · intro hf
      obtain rfl := Option.some.inj hf
      exact ⟨hself, fun g hg => (hafter g hg).2⟩
    · obtain ⟨z, rfl⟩ := v4_of_contains hpool hf.inPool
      exact congrArg some (Addr.toNat_inj rfl (Nat.le_antisymm (hafter _ hf).2 (hleast _ hself)))

/-- The loop ends within the fuel that is left above the last address. -/
theorem allocLoop_ends {l : BitVec 32} {fuel : Nat} {a : Addr} (hpool : pool.is4 = true)
    (hlast : ∀ y : BitVec 32, pool.contains (.v4 y) = true → y.toNat ≤ l.toNat)
    (hfuel : 0 < fuel ∧ (a.isValid = true → l.toNat + 2 ≤ a.toNat + fuel)) :
    AllocEnds pool broadcast used a (allocLoop pool broadcast used fuel a) := by
  induction fuel generalizing a with
  | zero => exact absurd hfuel.1 (Nat.lt_irrefl _)
  | succ fuel ih =>
    unfold allocLoop
    split
    · rename_i hin
      split
      · rename_i hheld
        refine .skip hin hheld (ih ?_)
        obtain ⟨y, rfl⟩ := v4_of_contains hpool hin.2
        have hle : y.toNat ≤ l.toNat := hlast y hin.2
        have hmore : l.toNat + 2 ≤ y.toNat + (fuel + 1) := hfuel.2 rfl
        refine ⟨by omega, fun hvalid => ?_⟩
        have hnum : (Addr.v4 y).next.toNat = y.toNat + 1 := Addr.toNat_next hvalid
        omega
      · rename_i hfree
        exact .found hin hfree
    · rename_i hout
      exact .exhausted hout

/-! ## The theorem -/

/-- **The least free address.** For every IPv4 pool, hub address and addresses in use: the source's `lastAddr` is
    the greatest address of the pool; the loop ends, with the least assignable address or with none if there is
    none; and that is what `AllocateIP` returns, or reports as exhaustion, in every state with these values. -/
theorem allocateIP_least (pool : Prefix) (hpool : pool.is4 = true) (hub : Addr) (held : List Addr) :
    ∃ last r, lastAddrBytes pool = some last ∧
      (pool.contains last = true ∧ ∀ a, pool.contains a = true → a.toNat ≤ last.toNat) ∧
      AllocEnds pool last (hub :: held) pool.masked.addr.next r ∧
      FindsLeast (Assignable pool last (hub :: held)) r ∧
      ∀ db : Db, db.hub.poolCIDR = pool → db.hub.address = hub → db.heldAddrs = held →
        run apply allocateIP db =
          r.elim (.error (.text ("pool " ++ pool.text ++ " exhausted"))) fun a => .ok (a, db) := by
  obtain ⟨last, hlast, hin, hmax⟩ := lastAddr_greatest hpool
  obtain ⟨n, hnet, hiff⟩ := contains_interval hpool
  obtain ⟨l, rfl⟩ := v4_of_contains hpool hin
  have hgreatest : ∀ y : BitVec 32, pool.contains (.v4 y) = true → y.toNat ≤ l.toNat := fun y hy => (hmax _ hy).1
  have hl := (hiff l).mp hin
  have hbits : pool.addr.bitLen = 32 := by
    obtain ⟨x, haddr⟩ := Addr.is4_iff.mp ((Bool.and_eq_true _ _).mp hpool).1
    rw [haddr]
    rfl
  have hends : AllocEnds pool (.v4 l) (hub :: held) pool.masked.addr.next
      (allocLoop pool (.v4 l) (hub :: held) (2 ^ (pool.addr.bitLen - pool.bits)) pool.masked.addr.next) := by
    -- a turn for each address after the network's, and one for the address past the last
    refine allocLoop_ends hpool hgreatest ⟨Nat.two_pow_pos _, fun hvalid => ?_⟩
    rw [hnet] at hvalid ⊢
    obtain ⟨y, hnext, hnum⟩ := next_v4 hvalid
    rw [hnext, hbits]
    show _ ≤ y.toNat + _
    omega
  refine ⟨.v4 l, _, by rw [lastAddr_bytes, hlast], ⟨hin, fun a ha => (hmax a ha).1⟩, hends,
    ends_least hpool hnet hends (fun hvalid => ?_) fun f hf => ?_, ?_⟩
  · rw [hnet] at hvalid ⊢
    obtain ⟨y, hnext, hnum⟩ := next_v4 hvalid
    exact ⟨y, hnext, by omega⟩
  · obtain ⟨z, rfl⟩ := v4_of_contains hpool hf.inPool
    have hne : n.toNat ≠ z.toNat := by
      intro he
      refine hf.ne_network ?_
      rw [hnet, BitVec.eq_of_toNat_eq he]
    have hlt : n.toNat < z.toNat := Nat.lt_of_le_of_ne ((hiff z).mp hf.inPool).1 hne
    rw [hnet]
    obtain ⟨y, hnext, hnum⟩ := next_v4 (next_isValid hlt)
    rw [hnext]
    exact ⟨rfl, show y.toNat ≤ z.toNat by omega⟩
  · intro db hdbpool hdbhub hdbheld
    subst hdbpool hdbhub hdbheld
    simp only [allocateIP, run_bind, run_acquire, run_read, hlast, orFail, run_ret]
    cases allocLoop db.hub.poolCIDR (.v4 l) (db.hub.address :: db.heldAddrs)
        (2 ^ (db.hub.poolCIDR.addr.bitLen - db.hub.poolCIDR.bits)) db.hub.poolCIDR.masked.addr.next with
    | none => rfl
    | some a => rfl

/-- At the top of the address space the loop ends there. -/
theorem allocateIP_least_top : ∃ last r, lastAddrBytes ⟨.ofBytes 255 255 255 252, 30⟩ = some last ∧
    AllocEnds ⟨.ofBytes 255 255 255 252, 30⟩ last [.ofBytes 255 255 255 253] (.ofBytes 255 255 255 253) r ∧
    FindsLeast (Assignable ⟨.ofBytes 255 255 255 252, 30⟩ last [.ofBytes 255 255 255 253]) r := by
  obtain ⟨last, r, hlast, -, hends, hleast, -⟩ :=
    allocateIP_least ⟨.ofBytes 255 255 255 252, 30⟩ (by decide) (.ofBytes 255 255 255 253) []
  exact ⟨last, r, hlast, hends, hleast⟩

end Store
end BeautyAwg
