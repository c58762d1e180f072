import BeautyAwg.Api.Session

/-!
# `Api.Correctness.Session`: what a session token says

A token is accepted just when it is the encoding of a payload, a dot and the payload's tag, and the payload is an
id without a bar, a bar and a time that has not passed (`verifyToken_eq_some`). Both separators are found from the
left, so the parts are the ones that were put together (`splitN_eq_some`).
-/

namespace BeautyAwg
namespace Api

open Strconv Bytes

variable {mac : Bytes → Bytes → Vector UInt8 32} {secret : Bytes} {issue now : Instant} {id tok : Bytes}

/-! ## Numbers -/

/-- A formatted number is read back. -/
theorem parseInt_expiry (t : Instant) : parseInt (chars (ascii (formatInt t.unix))) = (t.unix, none) := by
  have hparse : parseInt (formatInt t.unix) = (t.unix, none) :=
    parseInt_formatInt t.low (Int.lt_of_le_of_lt t.high (by decide))
  rw [chars_ascii fun c hc => ?_, hparse]
  rcases parseInt_chars (congrArg Prod.snd hparse) c hc with rfl | rfl | hdigit
  · decide
  · decide
  · exact Nat.lt_of_le_of_lt (Char.isDigit_iff_toNat.mp hdigit).2 (by decide)

/-- A text with a bar is no number. -/
theorem parseInt_bar {s : Bytes} (h : bar ∈ s) : (parseInt (chars s)).2 ≠ none := by
  intro hnone
  rcases parseInt_chars hnone (Char.ofUInt8 bar) (List.mem_map_of_mem h) with he | he | he
  all_goals exact absurd he (by decide)

/-! ## Tokens -/

/-- **What is accepted.** -/
theorem verifyToken_eq_some : verifyToken mac secret now tok = some id ↔
    ∃ text payload expiry exp, tok = text ++ dot :: hmac mac secret payload ∧ dot ∉ text ∧
      Base64.decode Base64.url text = some payload ∧ payload = id ++ bar :: expiry ∧ bar ∉ id ∧
        parseInt (chars expiry) = (exp, none) ∧ now.unix ≤ exp := by
  unfold verifyToken
  constructor
  · intro h
    obtain ⟨⟨text, tag⟩, hsplit, hdecoded⟩ := Option.bind_eq_some_iff.mp h
    obtain ⟨payload, hdecode, htagged⟩ := Option.bind_eq_some_iff.mp hdecoded
    obtain ⟨hdot, htok⟩ := splitN_eq_some.mp hsplit
    split at htagged
    · exact absurd htagged (by simp)
    · rename_i htag
      obtain ⟨⟨id', expiry⟩, hsplit', hparsed⟩ := Option.bind_eq_some_iff.mp htagged
      obtain ⟨hbar, hpayload⟩ := splitN_eq_some.mp hsplit'
      rcases hparse : parseInt (chars expiry) with ⟨exp, err⟩
      dsimp only at hparsed
      rw [hparse] at hparsed
      dsimp only at hparsed
      split at hparsed
      · exact absurd hparsed (by simp)
      · rename_i hvalid
        obtain rfl := Option.some.inj hparsed
        rw [not_or, not_not, Int.not_lt] at hvalid
        obtain ⟨rfl, hnow⟩ := hvalid
        exact ⟨text, payload, expiry, exp, by rw [not_not.mp htag, htok], hdot, hdecode, hpayload, hbar, hparse, hnow⟩
  · rintro ⟨text, payload, expiry, exp, rfl, hdot, hdecode, rfl, hbar, hparse, hnow⟩
    have hsplit : splitN dot (text ++ dot :: hmac mac secret (id ++ bar :: expiry)) = some _ :=
      splitN_eq_some.mpr ⟨hdot, rfl⟩
    have hsplit' : splitN bar (id ++ bar :: expiry) = some _ := splitN_eq_some.mpr ⟨hbar, rfl⟩
    rw [hsplit]
    show Option.bind (Base64.decode Base64.url text) _ = _
    rw [hdecode, Option.bind_some, if_neg (not_not.mpr rfl), hsplit']
    simp only [Option.bind_eq_bind, Option.bind_some]
    rw [hparse]
    exact if_neg (by simp [hnow])

/-- The expiry of a token: 12 hours after its issue, where time goes on that long. -/
theorem expiry_lt (issue now : Instant) :
    (issue.add sessionTTL).unix < now.unix ↔ issue.unix + 12 * 3600 < now.unix := by
  have hlast := now.high
  show min (issue.unix + (12 * 3600 : Nat)) lastSecond < now.unix ↔ _
  omega

/-- **What becomes of a token.** It is accepted, for the id it was signed for, until it expires; one for an id with
    a bar never is. -/
theorem verifyToken_signToken : verifyToken mac secret now (signToken mac secret issue id) =
    if bar ∈ id ∨ (issue.add sessionTTL).unix < now.unix then none else some id := by
  -- the token's parts are found again
  have hdot : ∀ payload, dot ∉ Base64.encode Base64.url payload :=
    fun payload => Base64.not_mem_encode (by decide +kernel) payload
  have hparts : ∀ {id'}, verifyToken mac secret now (signToken mac secret issue id) = some id' →
      ∃ expiry exp, id ++ bar :: ascii (formatInt (issue.add sessionTTL).unix) = id' ++ bar :: expiry ∧ bar ∉ id' ∧
        parseInt (chars expiry) = (exp, none) ∧ now.unix ≤ exp := by
    intro id' h
    obtain ⟨text, payload, expiry, exp, htok, hfree, hdecode, hpayload, hbar, hparse, hnow⟩ := verifyToken_eq_some.mp h
    obtain ⟨rfl, -⟩ := parts_eq (hdot _) hfree htok
    rw [Base64.decode_encode] at hdecode
    exact ⟨expiry, exp, (Option.some.inj hdecode).trans hpayload, hbar, hparse, hnow⟩
  by_cases hid : bar ∈ id
  · rw [if_pos (.inl hid), Option.eq_none_iff_forall_ne_some]
    intro id' h
    obtain ⟨expiry, exp, heq, hbar, hparse, -⟩ := hparts h
    obtain ⟨a, b, rfl, hfree⟩ := List.eq_append_cons_of_mem hid
    -- the first bar is the id's own, and what follows it has another
    rw [List.append_assoc, List.cons_append] at heq
    obtain ⟨-, rfl⟩ := parts_eq hfree hbar heq
    exact parseInt_bar (by simp) (congrArg Prod.snd hparse)
  · by_cases hexpired : (issue.add sessionTTL).unix < now.unix
    · rw [if_pos (.inr hexpired), Option.eq_none_iff_forall_ne_some]
      intro id' h
      obtain ⟨expiry, exp, heq, hbar, hparse, hnow⟩ := hparts h
      obtain ⟨-, rfl⟩ := parts_eq hid hbar heq
      rw [parseInt_expiry] at hparse
      obtain ⟨rfl, -⟩ := Prod.mk.inj hparse
      omega
    · rw [if_neg (not_or.mpr ⟨hid, hexpired⟩), verifyToken_eq_some]
      exact ⟨_, _, _, _, rfl, hdot _, Base64.decode_encode _, rfl, hid, parseInt_expiry _, Int.not_lt.mp hexpired⟩

/-- **Session tokens.** A token is accepted for its id until 12 hours after its issue and never later, and not at
    all if the id has a bar; and whatever token is accepted for an id says so, under its tag. -/
theorem session_tokens (mac : Bytes → Bytes → Vector UInt8 32) (secret id : Bytes) (issue now : Instant) :
    (bar ∉ id → now.unix ≤ issue.unix + 12 * 3600 →
      verifyToken mac secret now (signToken mac secret issue id) = some id) ∧
    (issue.unix + 12 * 3600 < now.unix → verifyToken mac secret now (signToken mac secret issue id) = none) ∧
    (bar ∈ id → verifyToken mac secret now (signToken mac secret issue id) = none) ∧
    ∀ tok id', verifyToken mac secret now tok = some id' ↔
      ∃ text payload expiry exp, tok = text ++ dot :: hmac mac secret payload ∧ dot ∉ text ∧
        Base64.decode Base64.url text = some payload ∧ payload = id' ++ bar :: expiry ∧ bar ∉ id' ∧
          parseInt (chars expiry) = (exp, none) ∧ now.unix ≤ exp := by
  rw [verifyToken_signToken]
  refine ⟨fun hid hnow => ?_, fun hlate => ?_, fun hid => if_pos (.inl hid), fun tok id' => verifyToken_eq_some⟩
  · exact if_neg (not_or.mpr ⟨hid, fun hlate => Int.not_lt.mpr hnow ((expiry_lt issue now).mp hlate)⟩)
  · exact if_pos (.inr ((expiry_lt issue now).mpr hlate))

/-- HMAC-SHA256 of the payload of the token below, under the key `secret`. -/
def demoMac (_ _ : Bytes) : Vector UInt8 32 :=
  #v[132, 247, 56, 83, 81, 237, 28, 120, 29, 93, 168, 74, 88, 149, 203, 250,
    123, 30, 73, 101, 40, 101, 218, 222, 225, 201, 241, 220, 237, 171, 49, 101]

/-- The moment of a login. -/
def demoIssue : Instant := ⟨1700000000, by decide, by decide⟩

/-- The last second of a token, and the one after it. -/
theorem session_tokens_last_second : ∃ token, token = signToken demoMac (ascii "secret".toList) demoIssue
      (ascii "7f3a".toList) ∧
    verifyToken demoMac (ascii "secret".toList) (demoIssue.add 43200) token = some (ascii "7f3a".toList) ∧
      verifyToken demoMac (ascii "secret".toList) (demoIssue.add 43201) token = none := by
  refine ⟨_, rfl, ?_, ?_⟩
  · exact (session_tokens demoMac _ _ demoIssue (demoIssue.add 43200)).1 (by decide) (by decide)
  · exact (session_tokens demoMac _ _ demoIssue (demoIssue.add 43201)).2.1 (by decide)

end Api
end BeautyAwg
