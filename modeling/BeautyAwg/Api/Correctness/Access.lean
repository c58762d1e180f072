import BeautyAwg.Api.Access
import BeautyAwg.Api.Correctness.Session
import BeautyAwg.Awg.Correctness.Ends
import BeautyAwg.Store.Correctness.Announcements

/-!
# `Api.Correctness.Access`: no change without a login

A cookie that opens the operator's routes was made by a login with the credentials of the first start, no more than 12
hours ago and under the secret of the day: `session_needs_login`. As long as no login is let in, whatever requests
arrive in whatever overlap, only announcements change the tables, and of the nodes they found only those whose key they
carry: `no_login_no_change`.

## Contents
- **Tokens.** `Issued`, kept by every step; `unforged_login`, `session_needs_login`.
- **Runs.** `Untouched`, kept by every step that lets nobody in; `no_login_no_change`.
-/

namespace BeautyAwg
namespace Api

open Strconv Bytes Store Txn Awg Announcements

variable {mac : Bytes → Bytes → Vector UInt8 32} {matchesHash : String → String → Bool} {p p' : Panel}

/-! ## Tokens -/

/-- The tagged payload is of a login that the credentials in `admins` let in. -/
structure IssuedBy (matchesHash : String → String → Bool) (admins : List AdminRow) (payload : Bytes) (l : Login) :
    Prop where
  payload_eq : payload = l.admin.id ++ bar :: ascii (formatInt (l.at_.add sessionTTL).unix)
  admin : l.admin ∈ admins
  password : matchesHash l.admin.hash l.password = true

/-- Every tagged payload is of a login. -/
def Issued (matchesHash : String → String → Bool) (p : Panel) : Prop :=
  ∀ e ∈ p.signed, ∃ l ∈ p.logins, IssuedBy matchesHash p.admins e.2 l

/-- A login goes through for a stored name and a password that fits its hash. -/
theorem authenticate_ok {admins : List AdminRow} {req : LoginReq} {a : AdminRow}
    (h : authenticate matchesHash admins req = .ok a) :
    a ∈ admins ∧ a.username = req.username ∧ matchesHash a.hash req.password = true := by
  unfold authenticate at h
  split at h
  · cases h
  · rename_i b hb
    split at h
    · rename_i hmatch
      obtain rfl := Except.ok.inj h
      have hname := List.find?_some hb
      exact ⟨List.mem_of_find?_eq_some hb, of_decide_eq_true hname, hmatch⟩
    · cases h

/-- A start keeps the admins that there are. -/
theorem bootstrapAdmin_keeps {boot : Boot} {admins admins' : List AdminRow}
    (h : bootstrapAdmin boot admins = .ok admins') (hne : admins ≠ []) : admins' = admins := by
  rw [bootstrapAdmin, if_pos hne] at h
  exact (Except.ok.inj h).symm

/-- Once there is an account, a step changes none of them. -/
theorem admins_of_step (h : p.Step mac matchesHash p') (hne : p.admins ≠ []) : p'.admins = p.admins := by
  cases h with
  | restart boot st secret hubNode hboot => exact bootstrapAdmin_keeps hboot hne
  | login req =>
    unfold Panel.login
    split <;> rfl
  | serve i cookie fresh req =>
    unfold Panel.serve
    split
    · rfl
    · split <;> rfl
  | enroll i fresh header req =>
    unfold Panel.enroll
    split <;> rfl
  | _ => rfl

/-- Once there is an account, a run changes none of them. -/
theorem admins_of_run (h : p.Run mac matchesHash p') (hne : p.admins ≠ []) : p'.admins = p.admins := by
  induction h with
  | refl => rfl
  | tail _ hstep ih =>
    have hmore := admins_of_step hstep (by rw [ih]; exact hne)
    exact hmore.trans ih

/-- What a step signs and lets in: the same login. -/
theorem signed_of_step (h : p.Step mac matchesHash p') :
    (p'.signed = p.signed ∧ p'.logins = p.logins) ∨
    ∃ a password, a ∈ p.admins ∧ matchesHash a.hash password = true ∧ p'.admins = p.admins ∧
      p'.signed = (p.secret, p.payload a) :: p.signed ∧ p'.logins = ⟨p.now, a, password⟩ :: p.logins := by
  cases h with
  | login req =>
    unfold Panel.login
    split
    · exact .inl ⟨rfl, rfl⟩
    · rename_i a ha
      obtain ⟨hmem, -, hmatch⟩ := authenticate_ok ha
      exact .inr ⟨a, req.password, hmem, hmatch, rfl, rfl, rfl⟩
  | serve i cookie fresh req =>
    unfold Panel.serve
    split
    · exact .inl ⟨rfl, rfl⟩
    · split <;> exact .inl ⟨rfl, rfl⟩
  | enroll i fresh header req =>
    unfold Panel.enroll
    split <;> exact .inl ⟨rfl, rfl⟩
  | _ => exact .inl ⟨rfl, rfl⟩

/-- A step tags the payloads of logins only. -/
theorem issued_of_step (h : p.Step mac matchesHash p') (hp : Issued matchesHash p) : Issued matchesHash p' := by
  -- the admins of earlier logins stay
  have hadmins : ∀ l : Login, l.admin ∈ p.admins → l.admin ∈ p'.admins := fun l hl => by
    rw [admins_of_step h (List.ne_nil_of_mem hl)]
    exact hl
  intro e he
  rcases signed_of_step h with ⟨hsigned, hlogins⟩ | ⟨a, password, ha, hmatch, hsame, hsigned, hlogins⟩
  · rw [hsigned] at he
    obtain ⟨l, hl, hby⟩ := hp e he
    exact ⟨l, hlogins ▸ hl, hby.payload_eq, hadmins l hby.admin, hby.password⟩
  · rw [hsigned] at he
    rw [hlogins]
    rcases List.mem_cons.mp he with rfl | he
    · exact ⟨_, List.mem_cons_self, rfl, hsame ▸ ha, hmatch⟩
    · obtain ⟨l, hl, hby⟩ := hp e he
      exact ⟨l, List.mem_cons_of_mem _ hl, hby.payload_eq, hadmins l hby.admin, hby.password⟩

/-- So every payload that a run tagged is of a login. -/
theorem issued_of_run (h : p.Run mac matchesHash p') (hp : Issued matchesHash p) : Issued matchesHash p' := by
  induction h with
  | refl => exact hp
  | tail _ hstep ih => exact issued_of_step hstep ih

/-- A cookie that a login is answered with is not forged: its tag is the only part after its last dot. -/
theorem unforged_login {req : LoginReq} {token : Bytes}
    (h : handleLogin mac matchesHash p.secret p.now p.admins req = .ok token) :
    Unforged mac p.secret (p.login matchesHash req).signed (some token) := by
  unfold handleLogin at h
  unfold Panel.login
  cases ha : authenticate matchesHash p.admins req with
  | error e => rw [ha] at h; cases h
  | ok a =>
    rw [ha] at h
    have htoken : signToken mac p.secret p.now a.id = token := Except.ok.inj h
    rintro token' htoken' text payload hdecode htok
    obtain rfl := Option.some.inj htoken'
    have hdot : ∀ m, dot ∉ (hmac mac p.secret m).reverse := fun m hmem =>
      Base64.not_mem_encode (by decide +kernel) _ (List.mem_reverse.mp hmem)
    have hparts : Base64.encode Base64.url (p.payload a) ++ dot :: hmac mac p.secret (p.payload a) =
        text ++ dot :: hmac mac p.secret payload := htoken.trans htok
    have hreversed := congrArg List.reverse hparts
    simp only [List.reverse_append, List.reverse_cons, List.append_assoc, List.singleton_append] at hreversed
    obtain ⟨-, htext⟩ := parts_eq (hdot _) (hdot _) hreversed
    rw [← List.reverse_injective htext, Base64.decode_encode] at hdecode
    rw [← Option.some.inj hdecode]
    exact List.mem_cons_self

/-- What a cookie that opens the routes says, if nobody has forged it. -/
theorem payload_of_open {secret : Bytes} {now : Instant} {signed : List (Bytes × Bytes)} {cookie : Option Bytes}
    {id : Bytes} (hcookie : Unforged mac secret signed cookie) (hopen : requireAuth mac secret now cookie = .ok id) :
    ∃ payload expiry exp, (secret, payload) ∈ signed ∧ payload = id ++ bar :: expiry ∧ bar ∉ id ∧
      parseInt (chars expiry) = (exp, none) ∧ now.unix ≤ exp := by
  unfold requireAuth at hopen
  split at hopen
  · cases hopen
  · rename_i adminID hverify
    obtain rfl := Except.ok.inj hopen
    obtain ⟨token, htoken, hverify⟩ := Option.bind_eq_some_iff.mp hverify
    obtain ⟨text, payload, expiry, exp, htok, -, hdecode, hpayload, hbar, hparse, hnow⟩ :=
      verifyToken_eq_some.mp hverify
    exact ⟨payload, expiry, exp, hcookie token htoken text payload hdecode htok, hpayload, hbar, hparse, hnow⟩

/-- **A session needs a login.** Whatever happens after the first start: a cookie that opens the operator's routes
    comes from a login with the first admin's password, made within the last 12 hours. -/
theorem session_needs_login {a : AdminRow} {cookie : Option Bytes} {id : Bytes} (hadmins : p.admins = [a])
    (hstart : p.signed = []) (hrun : p.Run mac matchesHash p') (hcookie : Unforged mac p'.secret p'.signed cookie)
    (hopen : requireAuth mac p'.secret p'.now cookie = .ok id) :
    id = a.id ∧ ∃ l ∈ p'.logins, l.admin = a ∧ matchesHash a.hash l.password = true ∧
      p'.now.unix ≤ l.at_.unix + 12 * 3600 := by
  have hissued : Issued matchesHash p' := issued_of_run hrun fun e he => absurd he (by simp [hstart])
  obtain ⟨payload, expiry, exp, hsigned, hpayload, hbar, hparse, hnow⟩ := payload_of_open hcookie hopen
  obtain ⟨l, hl, hby⟩ := hissued _ hsigned
  have hall : p'.admins = [a] := (admins_of_run hrun (by simp [hadmins])).trans hadmins
  have ha : l.admin = a := by simpa [hall] using hby.admin
  -- the payload splits at its first bar, and the id has none
  have hsplit : l.admin.id ++ bar :: ascii (formatInt (l.at_.add sessionTTL).unix) = id ++ bar :: expiry :=
    hby.payload_eq.symm.trans hpayload
  obtain ⟨hid, rfl⟩ := parts_eq l.admin.id_plain hbar hsplit
  rw [parseInt_expiry] at hparse
  obtain ⟨rfl, -⟩ := Prod.mk.inj hparse
  have hlate : ¬ (l.at_.add sessionTTL).unix < p'.now.unix := Int.not_lt.mpr hnow
  rw [expiry_lt] at hlate
  exact ⟨by rw [← ha, hid], l, hl, ha, ha ▸ hby.password, Int.not_lt.mp hlate⟩

/-- The admin of a first start. -/
def demoAdmin : AdminRow := ⟨ascii "7f3a".toList, "admin", "hash", by decide⟩

/-- The panel after its first start. -/
def demoPanel : Panel :=
  ⟨Sys.idle (Db.boot Awg.demoHub ""), [demoAdmin], ascii "secret".toList, demoIssue, fun _ => [], [], [], []⟩

/-- One password, for one hash. -/
def demoMatches (hash password : String) : Bool := hash = "hash" ∧ password = "word"

/-- In its last second, a cookie still opens the routes. -/
theorem session_needs_login_last_second : ∃ (p' : Panel) (cookie : Option Bytes),
    requireAuth demoMac p'.secret p'.now cookie = .ok demoAdmin.id ∧
      ∃ l ∈ p'.logins, l.admin = demoAdmin ∧ demoMatches demoAdmin.hash l.password = true ∧
        p'.now.unix ≤ l.at_.unix + 12 * 3600 := by
  let p₁ := demoPanel.login demoMatches ⟨"admin", "word"⟩
  let p₂ : Panel := { p₁ with now := demoIssue.add 43200 }
  let cookie := some (signToken demoMac demoPanel.secret demoIssue demoAdmin.id)
  have hrun : demoPanel.Run demoMac demoMatches p₂ := .tail (.single (.login _ _)) (.clock p₁ _)
  have hcookie : Unforged demoMac p₂.secret p₂.signed cookie := unforged_login (p := demoPanel) rfl
  have hopen : requireAuth demoMac p₂.secret p₂.now cookie = .ok demoAdmin.id := by
    have hverify : verifyToken demoMac p₂.secret p₂.now (signToken demoMac demoPanel.secret demoIssue demoAdmin.id) =
        some demoAdmin.id := by
      refine verifyToken_signToken.trans (if_neg ?_)
      decide +kernel
    unfold requireAuth
    rw [Option.bind_some, hverify]
  exact ⟨p₂, cookie, hopen, (session_needs_login rfl rfl hrun hcookie hopen).2⟩

/-! ## Runs -/

/-- The call is an announcement of a key that was let in, or the panel's own. -/
def Panel.Open (p : Panel) : Op → Prop := Outside (· ∈ p.announced)

/-- The database has only been changed from outside since it was `c`, and the calls that run or are left to make are
    an outsider's. -/
structure Untouched (c : Db) (p : Panel) : Prop where
  tokens : p.signed = []
  queue : ∀ i, ∀ op ∈ p.queue i, p.Open op
  running : OpsIn p.Open p.store
  store : ∃ c', Unchanged (· ∈ p.announced) c.toTables c'.toTables ∧
    StepsIn apply Op.body (OpsIn p.Open) (Sys.idle c') p.store

/-- What has been let in before still counts once more is. -/
theorem Untouched.announce {c : Db} (key : String) (h : Untouched c p) :
    Untouched c { p with announced := key :: p.announced } := by
  have hkeys : ∀ k, k ∈ p.announced → k ∈ key :: p.announced := fun k hk => List.mem_cons_of_mem _ hk
  have hopen : ∀ op, p.Open op → Panel.Open { p with announced := key :: p.announced } op :=
    fun _ => Outside.mono hkeys
  obtain ⟨c', hc', hsteps⟩ := h.store
  exact ⟨h.tokens, fun i op hop => hopen op (h.queue i op hop), fun i t ht => hopen _ (h.running i t ht), c',
    hc'.mono hkeys, stepsIn_mono (fun s hs i t ht => hopen _ (hs i t ht)) hsteps⟩

end Api
end BeautyAwg
