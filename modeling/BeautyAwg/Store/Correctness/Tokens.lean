import BeautyAwg.Lib.Rows
import BeautyAwg.NodeAgent.Poll
import BeautyAwg.Store.Correctness.Enrolment

/-!
# `Store.Correctness.Tokens`: enrolment tokens identify their node

`EnrollNode` draws a token for a row that has none, and hands out the row's own otherwise. A token therefore
stands for one row from the call that returned it to the row's deletion (`Held`), and for none afterwards
(`Gone`).

## Contents
- **Draws.** `newToken`; `NeverRepeat`: what random values are assumed to do.
- **The tables.** `Drawn`: tokens and keys come from the calls so far, and no two rows share a key.
- **One token.** `Held`, `Gone`, and the calls that keep them.
- **Runs.** `token_identifies`.
-/

namespace BeautyAwg
namespace Store

open Netip Awg Txn NodeAgent

/-! ## Draws -/

/-- A digit of a drawn token. -/
def hexDigit (n : Nat) : Char := "0123456789abcdef".toList.getD n '0'

/-- Sixteen random bytes in hexadecimal. -/
def newToken (b : Fin 16 → BitVec 8) : String :=
  String.ofList ((List.ofFn b).flatMap fun x => [hexDigit (x.toNat / 16), hexDigit (x.toNat % 16)])

theorem newToken_ne_empty (b : Fin 16 → BitVec 8) : newToken b ≠ "" := by
  intro h
  have hlen := congrArg (fun s => s.toList.length) h
  simp [newToken, List.ofFn_succ] at hlen

/-- The public key a call brings in, generated or announced. -/
def Op.publicKey : Op → Option String
  | .createNode _ _ _ _ keys _ => some keys.pub
  | .enrollNode _ _ _ _ _ pubkey _ _ => some pubkey
  | _ => none

/-- The key pair a call generates for a node. -/
def Op.generates : Op → Option Keypair
  | .createNode _ _ _ _ keys _ => some keys
  | _ => none

/-- Random values do not repeat in these calls: each token is `newToken`'s and none is drawn twice, and a
    generated key is neither one that was generated before nor one that was announced. -/
structure NeverRepeat (ops : List Op) : Prop where
  hex : ∀ token ∈ ops.filterMap drawn, ∃ b, token = newToken b
  tokens : (ops.filterMap drawn).Nodup
  keys : ops.Pairwise fun op op' => ∀ keys ∈ op'.generates, op.publicKey ≠ some keys.pub

variable {hub : Hub} {secret : String} {db db' : Db} {t t' : Tables} {past ops : List Op} {op : Op} {id : Uuid}
  {token pubkey : String}

namespace NeverRepeat

theorem left (h : NeverRepeat (past ++ ops)) : NeverRepeat past where
  hex tok htok := h.hex tok (by rw [List.filterMap_append]; exact List.mem_append_left _ htok)
  tokens := (List.nodup_append.mp (List.filterMap_append ▸ h.tokens)).1
  keys := (List.pairwise_append.mp h.keys).1

/-- The last call's token was not drawn before. -/
theorem new_token (h : NeverRepeat (past ++ [op])) (htoken : token ∈ drawn op) : token ∉ past.filterMap drawn := by
  have hnodup := h.tokens
  rw [List.filterMap_append, List.filterMap_cons_some (Option.mem_def.mp htoken)] at hnodup
  exact fun hmem => (List.nodup_append.mp hnodup).2.2 token hmem token List.mem_cons_self rfl

theorem drawn_ne_empty (h : NeverRepeat ops) (htoken : token ∈ ops.filterMap drawn) : token ≠ "" := by
  obtain ⟨b, rfl⟩ := h.hex token htoken
  exact newToken_ne_empty b

/-- The last call's key was not seen before, if it was generated. -/
theorem new_key (h : NeverRepeat (past ++ [op])) {keys : Keypair} (hkeys : op.generates = some keys) :
    ∀ op' ∈ past, op'.publicKey ≠ some keys.pub :=
  fun op' hop' => (List.pairwise_append.mp h.keys).2.2 op' hop' op List.mem_cons_self keys hkeys

end NeverRepeat

/-! ## The tables -/

theorem derefOr_some {default : String} (h : token ≠ "") : derefOr (some token) default = token := by
  simp [derefOr, h]

/-- Tokens and public keys come from the calls made so far, and a key stands in one row only. -/
structure Drawn (past : List Op) (t : Tables) : Prop where
  tokens : ∀ n ∈ t.nodes, ∀ token ∈ n.enrollToken, token ∈ past.filterMap drawn
  keys : ∀ n ∈ t.nodes, n.keys.pub ≠ "" → ∃ op ∈ past, op.publicKey = some n.keys.pub
  apart : ∀ n ∈ t.nodes, ∀ m ∈ t.nodes, n.keys.pub = m.keys.pub → n.keys.pub ≠ "" → n = m

/-- The id of the row a call may add. -/
def Op.adds : Op → Option Uuid
  | .createNode id _ _ _ _ _ => some id
  | .enrollNode id _ _ _ _ _ _ _ => some id
  | _ => none

/-- A row with a public key was there before, or it is the one the call added, under a key of its own. -/
theorem origin (hfresh : NeverRepeat (past ++ [op])) (hd : Drawn past t) {n' : NodeRow} (h : NodeFrom t op n')
    (hpub : n'.keys.pub ≠ "") :
    (∃ n ∈ t.nodes, n.id = n'.id ∧ n.keys = n'.keys) ∨
      (op.adds = some n'.id ∧ ∀ n ∈ t.nodes, n.keys.pub ≠ n'.keys.pub) := by
  cases h with
  | kept hn hid hkeys => exact .inl ⟨_, hn, hid.symm, hkeys.symm⟩
  | announced hn hkey => exact .inl ⟨_, hn, rfl, rfl⟩
  | @created id name lanIface subnets keys psk a =>
    refine .inr ⟨rfl, fun n hn he => ?_⟩
    obtain ⟨op', hop', hkey⟩ := hd.keys n hn (he ▸ hpub)
    exact hfresh.new_key (show Op.generates (.createNode id name lanIface subnets keys psk) = some keys from rfl)
      op' hop' (hkey.trans (congrArg some he))
  | registered hnew => exact .inr ⟨rfl, hnew⟩
  | hub hnone => exact absurd rfl hpub

theorem drawn_step (hfresh : NeverRepeat (past ++ [op])) (wf : t.Constraints) (wf' : t'.Constraints)
    (h : Effect op t t') (hd : Drawn past t) : Drawn (past ++ [op]) t' := by
  constructor
  case tokens =>
    intro n' hn' tok htok
    rw [List.filterMap_append, List.mem_append]
    cases nodeFrom_of_effect wf h hn' with
    | kept hn hid hkeys htoken => exact .inl (hd.tokens _ hn tok (htoken ▸ htok))
    | @announced id newToken name hostname lanIface pubkey subnets pick n hn =>
      have htok : derefOr n.enrollToken newToken = tok := Option.some.inj htok
      rcases derefOr_cases n.enrollToken newToken with hold | hnew
      · exact .inl (hd.tokens n hn tok (htok ▸ hold))
      · exact .inr (by simp [drawn, ← htok, hnew])
    | created => exact absurd htok (by simp [createdNode])
    | registered =>
      obtain rfl := Option.some.inj htok
      exact .inr (by simp [drawn])
    | hub => exact absurd htok (by simp [hubNode])
  case keys =>
    intro n' hn' hpub
    have hlast : ∀ {key}, op.publicKey = some key → ∃ op' ∈ past ++ [op], op'.publicKey = some key :=
      fun hkey => ⟨op, by simp, hkey⟩
    have hpast : ∀ n ∈ t.nodes, n.keys = n'.keys → ∃ op' ∈ past ++ [op], op'.publicKey = some n'.keys.pub := by
      intro n hn hkeys
      obtain ⟨op', hop', hkey⟩ := hd.keys n hn (hkeys ▸ hpub)
      exact ⟨op', List.mem_append_left _ hop', hkeys ▸ hkey⟩
    cases nodeFrom_of_effect wf h hn' with
    | kept hn hid hkeys => exact hpast _ hn hkeys.symm
    | announced hn => exact hpast _ hn rfl
    | created => exact hlast rfl
    | registered => exact hlast rfl
    | hub => exact absurd rfl hpub
  case apart =>
    intro n' hn' m' hm' hsame hpub
    refine node_eq_of_id wf' hn' hm' ?_
    -- a call adds one row at most, and only with a key that no row has
    rcases origin hfresh hd (nodeFrom_of_effect wf h hn') hpub with ⟨n, hn, hid, hkeys⟩ | ⟨hadds, hnew⟩ <;>
      rcases origin hfresh hd (nodeFrom_of_effect wf h hm') (hsame ▸ hpub) with ⟨m, hm, hid', hkeys'⟩ | ⟨hadds', hnew'⟩
    · rw [← hid, ← hid', hd.apart n hn m hm (by rw [hkeys, hkeys', hsame]) (hkeys ▸ hpub)]
    · exact absurd (by rw [hkeys, hsame]) (hnew' n hn)
    · exact absurd (by rw [hkeys', hsame]) (hnew m hm)
    · exact Option.some.inj (hadds.symm.trans hadds')

/-- The tables after calls none of which failed. -/
theorem drawn_run (hfresh : NeverRepeat ops)
    (hrun : runAll apply Op.body announces (Db.boot hub secret) ops = some db) : Drawn ops db.toTables := by
  have hall : NeverRepeat ([] ++ ops) → Drawn ([] ++ ops) db.toTables :=
    runAll_induction (I := fun past db => NeverRepeat past → Drawn past db.toTables)
      (fun past op s s' _ hop ih hf => drawn_step hf s.wf s'.wf (effect_of_run hop) (ih hf.left)) hrun
      fun _ => ⟨by simp [Db.boot], by simp [Db.boot], by simp [Db.boot]⟩
  exact hall hfresh

/-! ## One token -/

/-- The row has the token and the key. -/
def Held (id : Uuid) (pubkey token : String) (t : Tables) : Prop :=
  ∃ n ∈ t.nodes, n.id = id ∧ n.keys.pub = pubkey ∧ n.enrollToken = some token

/-- No row has the token. -/
def Gone (token : String) (t : Tables) : Prop := ∀ n ∈ t.nodes, n.enrollToken ≠ some token

/-- A token belongs to one row. -/
theorem node_eq_of_token (wf : t.Constraints) {n m : NodeRow} (hn : n ∈ t.nodes) (hm : m ∈ t.nodes)
    (h : n.enrollToken = some token) (h' : m.enrollToken = some token) : n = m :=
  eq_of_nodup_filterMap wf.nodes_enroll_token_key hn hm h h'

/-- A row keeps its token until it is deleted. -/
theorem Held.step (hne : token ≠ "") (wf : t.Constraints) (h : Effect op t t') (hkept : op ≠ .deleteNode id)
    (hheld : Held id pubkey token t) : Held id pubkey token t' := by
  obtain ⟨n, hn, rfl, hpub, htoken⟩ := hheld
  obtain ⟨n', hn', hstays⟩ := node_stays wf h hn hkept
  refine ⟨n', hn', hstays.id, by rw [hstays.keys, hpub], ?_⟩
  rcases hstays.token with hsame | ⟨new, hnew⟩
  · rw [hsame, htoken]
  · rw [hnew, htoken, derefOr_some hne]

/-- A token that no row has comes back only if it is drawn again. -/
theorem Gone.step (hnew : token ∉ drawn op) (wf : t.Constraints) (h : Effect op t t') (hgone : Gone token t) :
    Gone token t' := by
  intro n' hn' htoken
  cases nodeFrom_of_effect wf h hn' with
  | kept hn hid hkeys hsame => exact hgone _ hn (hsame ▸ htoken)
  | @announced id newToken name hostname lanIface pubkey subnets pick n hn =>
    have htoken : derefOr n.enrollToken newToken = token := Option.some.inj htoken
    rcases derefOr_cases n.enrollToken newToken with hold | hdrawn
    · exact hgone n hn (htoken ▸ hold)
    · exact hnew (congrArg some (hdrawn.symm.trans htoken))
  | created => exact absurd htoken (by simp [createdNode])
  | registered => exact hnew htoken
  | hub => exact absurd htoken (by simp [hubNode])

/-- The token goes with its row. -/
theorem Held.deleted (wf : t.Constraints) (h : Effect (.deleteNode id) t t') (hheld : Held id pubkey token t) :
    Gone token t' := by
  intro n' hn' htoken
  obtain ⟨n, hn, hid, -, hn_token⟩ := hheld
  have hne := node_deleted h hn'
  cases nodeFrom_of_effect wf h hn' with
  | kept hm hid' hkeys hsame =>
    have he := node_eq_of_token wf hm hn (hsame ▸ htoken) hn_token
    rw [hid', he] at hne
    exact hne hid

/-- Where a token stands after these calls: with its row, or with none if the row was deleted. -/
def Standing (id : Uuid) (pubkey token : String) (later : List Op) (t : Tables) : Prop :=
  if Op.deleteNode id ∈ later then Gone token t else Held id pubkey token t

theorem standing_step {later : List Op} (hne : token ≠ "") (hnew : token ∉ drawn op) (wf : t.Constraints)
    (h : Effect op t t') (hs : Standing id pubkey token later t) : Standing id pubkey token (later ++ [op]) t' := by
  unfold Standing at hs ⊢
  by_cases hold : Op.deleteNode id ∈ later
  · rw [if_pos hold] at hs
    rw [if_pos (List.mem_append_left _ hold)]
    exact hs.step hnew wf h
  · rw [if_neg hold] at hs
    by_cases hop : op = .deleteNode id
    · subst hop
      rw [if_pos (by simp)]
      exact hs.deleted wf h
    · rw [if_neg (by simp [hold, Ne.symm hop])]
      exact hs.step hne wf h hop

/-! ## Runs -/

section Announcement

variable {new name hostname lanIface : String} {subnets : List Prefix} {pick : Nat} {answer : String × NodeStatus}

/-- What an announcement returns: the token of the row that comes back for the key, or a new one. -/
theorem enrollNode_answer
    (h : run apply (enrollNode id new name hostname lanIface pubkey subnets pick) db = .ok (answer, db')) :
    (∃ r, anyRow pick (db.nodes.filter fun n => n.keys.pub = pubkey) = some r ∧
        answer.1 = derefOr r.enrollToken new) ∨
      anyRow pick (db.nodes.filter fun n => n.keys.pub = pubkey) = none ∧ answer.1 = new := by
  rcases run_enrollNode_ok h with ⟨r, hr, h⟩ | ⟨hr, h⟩
  · exact .inl ⟨r, hr, by rw [(run_reenrollNode_ok h).1]⟩
  · exact .inr ⟨hr, by rw [(run_registerNode_ok h).1]⟩

/-- After an announcement a row has its key and the token that was returned. -/
theorem enrollNode_held
    (h : run apply (enrollNode id new name hostname lanIface pubkey subnets pick) db = .ok (answer, db')) :
    ∃ node ∈ db'.nodes, node.keys.pub = pubkey ∧ node.enrollToken = some answer.1 := by
  rcases run_enrollNode_ok h with ⟨r, hr, h⟩ | ⟨-, h⟩
  · obtain ⟨hmem, hkey⟩ := anyRow_filter hr
    obtain ⟨rfl, htables⟩ := run_reenrollNode_ok h
    rw [htables]
    refine ⟨_, List.mem_map_of_mem hmem, ?_⟩
    rw [if_pos rfl]
    exact ⟨of_decide_eq_true hkey, rfl⟩
  · obtain ⟨rfl, htables⟩ := run_registerNode_ok h
    rw [htables]
    exact ⟨_, List.mem_append_right _ List.mem_cons_self, rfl, rfl⟩

theorem run_body_enrollNode
    (h : run apply (enrollNode id new name hostname lanIface pubkey subnets pick) db = .ok (answer, db')) :
    run apply (Op.enrollNode id new name hostname lanIface pubkey subnets pick).body db = .ok ((), db') := by
  simp only [Op.body, run_bind, h]
  rfl

/-- A later announcement returns the token exactly when it is of the token's key and the row is still there. -/
theorem answer_iff {key : String} {later : List Op} (hne : token ≠ "") (hpub : pubkey ≠ "")
    (hd : Drawn past db.toTables) (hnew : new ≠ token) (hstand : Standing id key token later db.toTables)
    {id' : Uuid}
    (h : run apply (enrollNode id' new name hostname lanIface pubkey subnets pick) db = .ok (answer, db')) :
    answer.1 = token ↔ pubkey = key ∧ Op.deleteNode id ∉ later := by
  unfold Standing at hstand
  constructor
  · intro htoken
    -- what is returned is not new, so it is some row's
    obtain ⟨r, hr, hr_token⟩ : ∃ r, anyRow pick (db.nodes.filter fun n => n.keys.pub = pubkey) = some r ∧
        r.enrollToken = some token := by
      rcases enrollNode_answer h with ⟨r, hr, hanswer⟩ | ⟨-, hanswer⟩
      · refine ⟨r, hr, ?_⟩
        rcases derefOr_cases r.enrollToken new with hold | hdrawn
        · rw [hold, ← hanswer, htoken]
        · exact absurd (by rw [← hdrawn, ← hanswer, htoken]) hnew
      · exact absurd (hanswer.symm.trans htoken) hnew
    have hr_mem := (anyRow_filter hr).1
    have hr_key : r.keys.pub = pubkey := of_decide_eq_true (anyRow_filter hr).2
    split at hstand
    · exact absurd hr_token (hstand r hr_mem)
    · rename_i hkept
      obtain ⟨n, hn, -, hn_key, hn_token⟩ := hstand
      obtain rfl := node_eq_of_token db.wf hr_mem hn hr_token hn_token
      exact ⟨hr_key.symm.trans hn_key, hkept⟩
  · rintro ⟨rfl, hkept⟩
    rw [if_neg hkept] at hstand
    obtain ⟨n, hn, -, hn_key, hn_token⟩ := hstand
    rcases enrollNode_answer h with ⟨r, hr, hanswer⟩ | ⟨hnone, -⟩
    · have hr_key : r.keys.pub = pubkey := of_decide_eq_true (anyRow_filter hr).2
      obtain rfl := hd.apart r (anyRow_filter hr).1 n hn (hr_key.trans hn_key.symm) (hr_key ▸ hpub)
      rw [hanswer, hn_token, derefOr_some hne]
    · exact absurd hn_key (by simpa using anyRow_filter_none hnone hn)

end Announcement

/-- What `NodeByToken` finds for a token that stands with its row or with none. -/
theorem nodeByToken_standing {later : List Op} (hstand : Standing id pubkey token later db.toTables) :
    (∀ i s, nodeByToken db.toTables token = .ok (i, s) → ∃ n ∈ db.nodes, n.id = i ∧ n.keys.pub = pubkey) ∧
      (.deleteNode id ∉ later → ∃ s, nodeByToken db.toTables token = .ok (id, s)) ∧
      (.deleteNode id ∈ later → nodeByToken db.toTables token = .error errNoRows) := by
  unfold Standing at hstand
  unfold nodeByToken
  split
  · rename_i m hm
    have hm_mem := List.mem_of_find?_eq_some hm
    have hm_token : m.enrollToken = some token := by simpa using List.find?_some hm
    split at hstand
    · exact absurd hm_token (hstand m hm_mem)
    · rename_i hkept
      obtain ⟨n, hn, hid, hn_key, hn_token⟩ := hstand
      obtain rfl := node_eq_of_token db.wf hm_mem hn hm_token hn_token
      refine ⟨fun i s h => ?_, fun _ => ⟨m.status, by rw [hid]⟩, fun hdel => absurd hdel hkept⟩
      obtain ⟨rfl, -⟩ := Prod.mk.inj (Except.ok.inj h)
      exact ⟨m, hm_mem, rfl, hn_key⟩
  · rename_i hnone
    refine ⟨fun i s h => absurd h (by simp), fun hkept => ?_, fun _ => rfl⟩
    rw [if_neg hkept] at hstand
    obtain ⟨n, hn, -, -, hn_token⟩ := hstand
    exact absurd hn_token (by simpa using List.find?_eq_none.mp hnone n hn)

/-- **A token identifies its node.** Let an announcement of the key `pubkey` return `token` after any calls, and
    let any calls follow. The token finds the row with that key as long as the row is there, and after its
    deletion it finds none. A later announcement returns it if and only if it is of the same key and the row was
    not deleted. -/
theorem token_identifies {past later : List Op} {db₁ db₂ : Db} {new name hostname lanIface : String}
    {subnets : List Prefix} {pick : Nat} {status : NodeStatus}
    (hpast : runAll apply Op.body announces (Db.boot hub secret) past = some db)
    (hcall : run apply (enrollNode id new name hostname lanIface pubkey subnets pick) db = .ok ((token, status), db₁))
    (hlater : runAll apply Op.body announces db₁ later = some db₂)
    (hfresh : NeverRepeat (past ++ [.enrollNode id new name hostname lanIface pubkey subnets pick] ++ later)) :
    ∃ node ∈ db₁.nodes, node.keys.pub = pubkey ∧
      (∀ i s, nodeByToken db₂.toTables token = .ok (i, s) → ∃ n ∈ db₂.nodes, n.id = i ∧ n.keys.pub = pubkey) ∧
      (.deleteNode node.id ∉ later → ∃ s, nodeByToken db₂.toTables token = .ok (node.id, s)) ∧
      (.deleteNode node.id ∈ later → nodeByToken db₂.toTables token = .error errNoRows) ∧
      ∀ id' new' name' hostname' lanIface' pubkey' subnets' pick' token' status' db₃, pubkey' ≠ "" →
        NeverRepeat (past ++ [.enrollNode id new name hostname lanIface pubkey subnets pick] ++ later ++
          [.enrollNode id' new' name' hostname' lanIface' pubkey' subnets' pick']) →
        run apply (enrollNode id' new' name' hostname' lanIface' pubkey' subnets' pick') db₂ =
          .ok ((token', status'), db₃) →
        (token' = token ↔ pubkey' = pubkey ∧ .deleteNode node.id ∉ later) := by
  obtain ⟨node, hnode, hkey, htoken⟩ := enrollNode_held hcall
  let call := Op.enrollNode id new name hostname lanIface pubkey subnets pick
  have hd₁ : Drawn (past ++ [call]) db₁.toTables :=
    drawn_step hfresh.left db.wf db₁.wf (effect_of_run (run_body_enrollNode hcall)) (drawn_run hfresh.left.left hpast)
  have hmem : token ∈ (past ++ [call]).filterMap drawn := hd₁.tokens node hnode token htoken
  have hne : token ≠ "" := hfresh.left.drawn_ne_empty hmem
  -- the token stands with its row or with none, whatever has been called since
  have hlate : Drawn (past ++ [call] ++ later) db₂.toTables ∧ Standing node.id pubkey token later db₂.toTables := by
    have hall : NeverRepeat (past ++ [call] ++ ([] ++ later)) → Drawn (past ++ [call] ++ ([] ++ later)) db₂.toTables ∧
        Standing node.id pubkey token ([] ++ later) db₂.toTables := runAll_induction
      (I := fun l c => NeverRepeat (past ++ [call] ++ l) →
        Drawn (past ++ [call] ++ l) c.toTables ∧ Standing node.id pubkey token l c.toTables)
      (fun l op c c' _ hop ih hf => by
        rw [← List.append_assoc] at hf ⊢
        obtain ⟨hd, hs⟩ := ih hf.left
        have heff := effect_of_run hop
        have hnew : token ∉ drawn op := fun hdrawn =>
          hf.new_token hdrawn (by rw [List.filterMap_append]; exact List.mem_append_left _ hmem)
        exact ⟨drawn_step hf c.wf c'.wf heff hd, standing_step hne hnew c.wf heff hs⟩)
      hlater fun _ => ⟨by simpa using hd₁, by simpa [Standing] using ⟨node, hnode, rfl, hkey, htoken⟩⟩
    exact hall hfresh
  obtain ⟨hd₂, hstand⟩ := hlate
  obtain ⟨hfound, hthere, hgone⟩ := nodeByToken_standing hstand
  refine ⟨node, hnode, hkey, hfound, hthere, hgone, ?_⟩
  intro id' new' name' hostname' lanIface' pubkey' subnets' pick' token' status' db₃ hpub' hf h
  have hnew : new' ≠ token := by
    rintro rfl
    refine hf.new_token
      (show new' ∈ drawn (.enrollNode id' new' name' hostname' lanIface' pubkey' subnets' pick') from rfl) ?_
    rw [List.filterMap_append]
    exact List.mem_append_left _ hmem
  exact answer_iff hne hpub' hd₂ hnew hstand h

/-- A node enrols, is approved and deleted. -/
theorem token_identifies_deleted : ∃ db db₁ db₂ token status,
    runAll apply Op.body announces (Db.boot demoHub "") [.ensureHubNode 1] = some db ∧
    run apply (enrollNode 2 (newToken fun _ => 0) "home" "home" "eth0" "pub" [⟨.ofBytes 192 168 1 0, 24⟩] 0) db =
      .ok ((token, status), db₁) ∧
    runAll apply Op.body announces db₁ [.approveNode 2, .deleteNode 2] = some db₂ ∧
    nodeByToken db₂.toTables token = .error errNoRows := by
  let call := Op.enrollNode 2 (newToken fun _ => 0) "home" "home" "eth0" "pub" [⟨.ofBytes 192 168 1 0, 24⟩] 0
  have hrun : ((runAll apply Op.body announces (Db.boot demoHub "") [.ensureHubNode 1]).bind fun db =>
      (runAll apply Op.body announces db [call]).bind fun db₁ =>
        (runAll apply Op.body announces db₁ [.approveNode 2, .deleteNode 2]).map fun _ =>
          db₁.nodes.map fun n => (n.id, n.keys.pub)) = some [(1, ""), (2, "pub")] := by decide +kernel
  obtain ⟨db, hdb, hrun⟩ := Option.bind_eq_some_iff.mp hrun
  obtain ⟨db₁, hdb₁, hrun⟩ := Option.bind_eq_some_iff.mp hrun
  obtain ⟨db₂, hdb₂, hrows⟩ := Option.map_eq_some_iff.mp hrun
  have hbody : run apply call.body db = .ok ((), db₁) := run_of_runAll hdb₁
  obtain ⟨⟨token, status⟩, hcall⟩ := run_discard hbody
  have hfresh : NeverRepeat ([.ensureHubNode 1] ++ [call] ++ [.approveNode 2, .deleteNode 2]) := by
    have hdrawn : [.ensureHubNode 1, call, .approveNode 2, .deleteNode 2].filterMap drawn = [newToken fun _ => 0] := rfl
    refine ⟨fun token h => ⟨fun _ => 0, ?_⟩, ?_, by simp [Op.generates, call]⟩
    · exact List.mem_singleton.mp (hdrawn ▸ h)
    · exact hdrawn ▸ List.nodup_singleton _
  obtain ⟨node, hnode, hkey, -, -, hgone, -⟩ := token_identifies hdb hcall hdb₂ hfresh
  have hid : node.id = 2 := by
    have hmem : (node.id, node.keys.pub) ∈ db₁.nodes.map fun n => (n.id, n.keys.pub) := List.mem_map_of_mem hnode
    rw [hrows, hkey] at hmem
    simpa using hmem
  exact ⟨db, db₁, db₂, token, status, hdb, hcall, hdb₂, hgone (by simp [hid])⟩

end Store
end BeautyAwg
