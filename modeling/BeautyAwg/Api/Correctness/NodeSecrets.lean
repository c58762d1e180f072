import Mathlib.Data.Fintype.EquivFin
import BeautyAwg.Store.Correctness.Tokens
import BeautyAwg.Store.EnrollCalls

/-!
# `Api.Correctness.NodeSecrets`: the keys of a node the panel created

The panel keeps the private key of a node that `CreateNode` made, and prints it in the node's configuration.
Anyone with the enrolment secret who announces the node's public key is told the token that fetches this
configuration. Without such an announcement two databases that differ in the node's secrets only answer every
request alike.

## Contents
- **Requests.** `NodeReq`, `serve`, `replies`: the two endpoints that need no session, one request at a time.
- **Two databases.** `rekey`; what the writes of an announcement do to both.
- **One request.** `Shown`: it fetches the node's configuration. `serve_alike` for the others.
- **Sequences.** `Untold`, `Exposed`, `node_secrets`.
-/

namespace BeautyAwg
namespace Api

open Netip Awg Store Txn NodeAgent

/-! ## Requests -/

/-- A request without a session, and what the panel draws or is told meanwhile: `order` is the order in which
    the linked subnets come out of the database, `update` the newest release. -/
inductive NodeReq where
  | enroll (fresh : Fresh) (header : String) (req : EnrollReq)
  | poll (token : String) (order : {f : List Prefix → List Prefix // ∀ l, (f l).Perm l})
    (update : Option (String × String))

/-- What a request without a session is answered. -/
inductive Reply where
  | refused (e : HttpError)
  | failed (e : StoreErr)
  | enrolled (token : String) (status : NodeStatus)
  | polled (r : Response)

/-- An announcement with its answer. -/
def enrolCall (op : Op) (db : Db) : Except StoreErr ((String × NodeStatus) × Db) :=
  match op with
  | .enrollNode id newToken name hostname lanIface pubkey subnets pick =>
    run apply (enrollNode id newToken name hostname lanIface pubkey subnets pick) db
  | _ => .error .noRows

/-- The panel's reply, and its database afterwards. -/
def serve (r : NodeReq) (db : Db) : Reply × Db :=
  match r with
  | .enroll fresh header req =>
    match handleEnroll fresh db.enrollSecret header req with
    | .error e => (.refused e, db)
    | .ok op =>
      match enrolCall op db with
      | .error e => (.failed e, db)
      | .ok (answer, db') => (.enrolled answer.1 answer.2, db')
  | .poll token order update =>
    let found := nodeByToken db.toTables token
    let exported := found.bind fun row =>
      NodeAgent.getNodeForExport db.toTables row.1 (order.val (reachSubnets db.toTables row.1))
    (.polled (handleEnrollPoll found exported update), db)

/-- The answers to requests one after another. -/
def replies : List NodeReq → Db → List Reply
  | [], _ => []
  | r :: rs, db => (serve r db).1 :: replies rs (serve r db).2

/-- The public key a request announces. -/
def NodeReq.announces : NodeReq → Option String
  | enroll _ _ req => some req.publicKey
  | poll _ _ _ => none

/-- The token a request polls with. -/
def NodeReq.token : NodeReq → Option String
  | enroll _ _ _ => none
  | poll token _ _ => some token

/-- The token a reply tells. -/
def Reply.tells : Reply → Option String
  | enrolled token _ => some token
  | _ => none

/-- The configuration a reply carries. -/
def Reply.config : Reply → String
  | polled ⟨_, .ok body⟩ => body.config
  | _ => ""

/-! ## Two databases -/

/-- A row with other secrets. -/
def withSecrets (priv psk : String) (n : NodeRow) : NodeRow :=
  { n with keys := ⟨priv, n.keys.pub⟩, preshared := psk }

/-- The tables with other secrets for one node. -/
def rekey (t : Tables) (id : Uuid) (priv psk : String) : Tables := t.editNode id (withSecrets priv psk)

section TwoDatabases

variable {id : Uuid} {priv psk : String} {t : Tables} {db db' : Db}

/-- The constraints do not concern the secrets. -/
theorem constraints_rekey : (rekey t id priv psk).Constraints ↔ t.Constraints := by
  have hids : (rekey t id priv psk).nodes.map NodeRow.id = t.nodes.map NodeRow.id := map_editNode fun _ => rfl
  have hnames : (rekey t id priv psk).nodes.map NodeRow.name = t.nodes.map NodeRow.name := map_editNode fun _ => rfl
  have haddresses : (rekey t id priv psk).nodes.filterMap NodeRow.address = t.nodes.filterMap NodeRow.address :=
    filterMap_editNode fun _ => rfl
  have htokens : (rekey t id priv psk).nodes.filterMap NodeRow.enrollToken =
      t.nodes.filterMap NodeRow.enrollToken := filterMap_editNode fun _ => rfl
  have hhubs : ((rekey t id priv psk).nodes.filter NodeRow.isHub).length = (t.nodes.filter NodeRow.isHub).length :=
    hubs_editNode fun _ => rfl
  rw [Tables.constraints_iff, Tables.constraints_iff, hids, hnames, haddresses, htokens, hhubs]
  rfl

/-- Two databases that differ in the node's secrets only. -/
structure Rekeyed (id : Uuid) (priv psk : String) (db db' : Db) : Prop where
  tables : db'.toTables = rekey db.toTables id priv psk
  node : id ∈ db.nodes.map NodeRow.id

/-- The writes of an announcement. -/
inductive Announcing : Write → Prop
  | insertNode (r : NodeRow) : Announcing (.insertNode r)
  | announce (known : Uuid) (token hostname lanIface : String) :
    Announcing (.updateNode known (announce token hostname lanIface))
  | deleteSubnet (s : SubnetRow) : Announcing (.deleteSubnet s)
  | insertSubnet (s : SubnetRow) : Announcing (.insertSubnet s)

/-- A new row is the one with other secrets only if its id is taken. -/
theorem eval_rekey (priv psk : String) {w : Write} (hw : Announcing w) (hid : id ∈ t.nodes.map NodeRow.id) :
    w.eval (rekey t id priv psk) = rekey (w.eval t) id priv psk ∨
      (¬ (w.eval t).Constraints ∧ ¬ (w.eval (rekey t id priv psk)).Constraints) := by
  cases hw with
  | insertNode r =>
    by_cases hr : r.id = id
    · have htaken : ∀ u : Tables, id ∈ u.nodes.map NodeRow.id → ¬ (Write.eval u (.insertNode r)).Constraints := by
        intro u hu hwf
        obtain ⟨n, hn, hid⟩ := List.mem_map.mp hu
        exact nodup_append_ne hwf.nodes_pkey hn (hid.trans hr.symm)
      have hids : (rekey t id priv psk).nodes.map NodeRow.id = t.nodes.map NodeRow.id := map_editNode fun _ => rfl
      exact .inr ⟨htaken t hid, htaken _ (hids ▸ hid)⟩
    · left
      simp only [Write.eval, rekey, Tables.editNode, List.map_append, List.map_cons, List.map_nil, if_neg hr]
  | announce known token hostname lanIface =>
    left
    simp only [Write.eval, rekey, Tables.editNode, List.map_map]
    congr 1
    refine List.map_congr_left fun n _ => ?_
    simp only [Function.comp_apply]
    by_cases hn : n.id = id <;> by_cases hk : n.id = known
    · rw [if_pos hn, if_pos hk]
      exact (if_pos hk).trans (if_pos hn).symm
    · rw [if_pos hn, if_neg hk, if_pos hn]
      exact if_neg hk
    · rw [if_neg hn, if_pos hk]
      exact (if_neg hn).symm
    · rw [if_neg hn, if_neg hk, if_neg hn]
  | deleteSubnet s => exact .inl rfl
  | insertSubnet s => exact .inl rfl

/-- An announcement does not delete the row. -/
theorem node_of_announcing {w : Write} (hw : Announcing w) (hid : id ∈ t.nodes.map NodeRow.id) :
    id ∈ (w.eval t).nodes.map NodeRow.id := by
  cases hw with
  | insertNode r => exact List.map_append ▸ List.mem_append_left _ hid
  | announce known token hostname lanIface =>
    obtain ⟨n, hn, rfl⟩ := List.mem_map.mp hid
    refine List.mem_map.mpr ⟨_, List.mem_map_of_mem hn, ?_⟩
    split <;> rfl
  | deleteSubnet s => exact hid
  | insertSubnet s => exact hid

/-- The writes of an announcement treat tables alike that differ in one node's secrets. -/
theorem writesAlike : WritesAlike apply (Rekeyed id priv psk) Announcing := by
  intro w db db' hw hdb
  have hnode := node_of_announcing hw hdb.node
  rcases eval_rekey priv psk hw hdb.node with heval | ⟨hbad, hbad'⟩
  · rw [← hdb.tables] at heval
    by_cases hok : (w.eval db.toTables).Constraints
    · have hok' : (w.eval db'.toTables).Constraints := by rw [heval, constraints_rekey]; exact hok
      simp only [apply, Tables.commit, dif_pos hok, dif_pos hok']
      exact ⟨rfl, heval, hnode⟩
    · have hok' : ¬ (w.eval db'.toTables).Constraints := by rw [heval, constraints_rekey]; exact hok
      simp only [apply, Tables.commit, dif_neg hok, dif_neg hok']
      exact rfl
  · rw [← hdb.tables] at hbad'
    simp only [apply, Tables.commit, dif_neg hbad, dif_neg hbad']
    exact rfl

theorem blind_checkText {texts : List String} : Blind (Rekeyed id priv psk) Announcing (checkText texts) := by
  unfold checkText
  split <;> trivial

theorem blind_insertSubnets {node : Uuid} {subnets : List Prefix} :
    Blind (Rekeyed id priv psk) Announcing (insertSubnets node subnets) := by
  refine blind_writes fun w hw => ?_
  obtain ⟨s, -, rfl⟩ := List.mem_map.mp hw
  exact .insertSubnet _

/-- An announcement that a row is taken for does not look at its secrets. -/
theorem blind_reenrollNode {r : NodeRow} {newToken hostname lanIface : String} {subnets : List Prefix} :
    Blind (Rekeyed id priv psk) Announcing (reenrollNode r newToken hostname lanIface subnets) := by
  refine blind_bind blind_checkText fun _ => blind_bind (blind_write (.announce _ _ _ _)) fun _ =>
    blind_bind ?_ fun _ => trivial
  unfold replaceSubnets
  split
  · trivial
  · refine ⟨fun v v' hv => ⟨?_, rfl⟩, fun v w hw => ?_, fun _ => blind_insertSubnets⟩
    · have hsubnets := congrArg Tables.subnets hv.tables
      exact congrArg (fun rows => (rows.filter fun s => s.nodeId = r.id).map Write.deleteSubnet) hsubnets.symm
    · obtain ⟨s, -, rfl⟩ := List.mem_map.mp hw
      exact .deleteSubnet s

/-- So the first announcement of a key sees no difference between them. -/
theorem blind_registerNode {node : Uuid} {newToken name hostname lanIface pubkey : String} {subnets : List Prefix} :
    Blind (Rekeyed id priv psk) Announcing (registerNode node newToken name hostname lanIface pubkey subnets) :=
  blind_bind blind_checkText fun _ => blind_bind (blind_write (.insertNode _)) fun _ =>
    blind_bind blind_insertSubnets fun _ => trivial

/-- The first row that satisfies a condition on what the secrets are no part of. -/
theorem find_rekey {p : NodeRow → Bool} (hp : ∀ n, p (withSecrets priv psk n) = p n) :
    (rekey t id priv psk).nodes.find? p =
      (t.nodes.find? p).map fun n => if n.id = id then withSecrets priv psk n else n := find_editNode hp

/-- The row that comes back for a condition on what the secrets are no part of. -/
theorem anyRow_rekey {p : NodeRow → Bool} (hp : ∀ n, p (withSecrets priv psk n) = p n) (pick : Nat) :
    anyRow pick ((rekey t id priv psk).nodes.filter p) =
      (anyRow pick (t.nodes.filter p)).map fun n => if n.id = id then withSecrets priv psk n else n := by
  have hfilter : (rekey t id priv psk).nodes.filter p =
      (t.nodes.filter p).map fun n => if n.id = id then withSecrets priv psk n else n := by
    show List.filter p (List.map _ t.nodes) = _
    rw [List.filter_map]
    refine congrArg (List.map _) (List.filter_congr fun n _ => ?_)
    rw [Function.comp_apply]
    split
    · exact hp n
    · rfl
  rw [hfilter, anyRow, anyRow, List.length_map, List.getElem?_map]

/-- **An announcement** has the same outcome in both. -/
theorem enrolCall_alike (hdb : Rekeyed id priv psk db db') (op : Op) :
    Alike (Rekeyed id priv psk) (enrolCall op db) (enrolCall op db') := by
  cases op with
  | enrollNode node newToken name hostname lanIface pubkey subnets pick =>
    simp only [enrolCall, enrollNode]
    rw [run_checkText_bind, run_checkText_bind]
    split
    swap
    · rfl
    simp only [run_bind, run_lockNode]
    rw [hdb.tables, anyRow_rekey fun _ => rfl]
    cases anyRow pick (db.nodes.filter fun n => n.keys.pub = pubkey) with
    | none => exact run_alike writesAlike blind_registerNode hdb
    | some r =>
      have hsame : reenrollNode (if r.id = id then withSecrets priv psk r else r) newToken hostname lanIface subnets =
          reenrollNode r newToken hostname lanIface subnets := by split <;> rfl
      simp only [Option.map_some]
      rw [hsame]
      exact run_alike writesAlike blind_reenrollNode hdb
  | _ => rfl

end TwoDatabases

/-! ## One request -/

/-- The request fetches the node's configuration. -/
def Shown (id : Uuid) (r : NodeReq) (db : Db) : Prop :=
  ∃ n ∈ db.nodes, n.id = id ∧ n.status = .active ∧ n.address ≠ none ∧
    ∃ token, r.token = some token ∧ n.enrollToken = some token

section OneRequest

variable {id : Uuid} {priv psk : String} {t : Tables} {db db' : Db} {r : NodeReq}

/-- The look-up by token does not see the secrets. -/
theorem nodeByToken_rekey {token : String} : nodeByToken (rekey t id priv psk) token = nodeByToken t token := by
  unfold nodeByToken
  rw [find_rekey fun _ => rfl]
  cases t.nodes.find? fun n => n.enrollToken = some token with
  | none => rfl
  | some n =>
    simp only [Option.map_some]
    split <;> rfl

/-- Another node's row, or one without an address, is exported without the secrets. -/
theorem getNodeForExport_rekey {node : Uuid} {reach : List Prefix}
    (h : ∀ n ∈ t.nodes, n.id = node → node = id → n.address = none) :
    NodeAgent.getNodeForExport (rekey t id priv psk) node reach = NodeAgent.getNodeForExport t node reach := by
  unfold NodeAgent.getNodeForExport
  rw [find_rekey fun _ => rfl]
  cases hfind : t.nodes.find? fun n => n.id = node with
  | none => rfl
  | some n =>
    have hn : n.id = node := by simpa using List.find?_some hfind
    by_cases hid : n.id = id
    · have hnone := h n (List.mem_of_find?_eq_some hfind) hn (hn.symm.trans hid)
      have hnone' : (withSecrets priv psk n).address = none := hnone
      simp only [Option.map_some, if_pos hid, hnone, hnone']
    · simp only [Option.map_some, if_neg hid]
      rfl

/-- **One request** that does not fetch the node's configuration has the same reply in both. -/
theorem serve_alike (hdb : Rekeyed id priv psk db db') (h : ¬ Shown id r db) :
    (serve r db').1 = (serve r db).1 ∧ Rekeyed id priv psk (serve r db).2 (serve r db').2 := by
  cases r with
  | enroll fresh header req =>
    -- an announcement reads the enrolment secret and writes rows, none of which has the key pair
    have hsecret := congrArg Tables.enrollSecret hdb.tables
    simp only [serve]
    rw [show db'.enrollSecret = db.enrollSecret from hsecret]
    cases handleEnroll fresh db.enrollSecret header req with
    | error e => exact ⟨rfl, hdb⟩
    | ok op =>
      have hcall := enrolCall_alike hdb op
      simp only
      cases hc : enrolCall op db with
      | error e =>
        cases hc' : enrolCall op db' with
        | error e' =>
          rw [hc, hc'] at hcall
          exact ⟨congrArg Reply.failed (Eq.symm hcall), hdb⟩
        | ok a' => rw [hc, hc'] at hcall; exact hcall.elim
      | ok a =>
        cases hc' : enrolCall op db' with
        | error e' => rw [hc, hc'] at hcall; exact hcall.elim
        | ok a' =>
          rw [hc, hc'] at hcall
          refine ⟨?_, hcall.2⟩
          show Reply.enrolled a'.1.1 a'.1.2 = Reply.enrolled a.1.1 a.1.2
          rw [hcall.1]
  | poll token order update =>
    refine ⟨?_, hdb⟩
    simp only [serve]
    -- a poll reads the row by its token, and only an active node's export
    rw [hdb.tables, nodeByToken_rekey]
    cases hfound : nodeByToken db.toTables token with
    | error e => rfl
    | ok row =>
      obtain ⟨node, status⟩ := row
      by_cases hactive : status = .active
      · subst hactive
        congr 2
        refine getNodeForExport_rekey fun n hn hid hnode => ?_
        -- an export that depended on the secrets would show them
        by_contra haddr
        unfold nodeByToken at hfound
        split at hfound
        · rename_i m hm
          obtain ⟨hm_id, hm_status⟩ := Prod.mk.inj (Except.ok.inj hfound)
          have hm_mem := List.mem_of_find?_eq_some hm
          obtain rfl := node_eq_of_id db.wf hn hm_mem (hid.trans hm_id.symm)
          exact h ⟨n, hn, hid.trans hnode, hm_status, haddr, token, rfl, by simpa using List.find?_some hm⟩
        · exact absurd hfound (by simp)
      · simp only [handleEnrollPoll, if_neg hactive]

/-- What a request does: nothing and tell no token, or announce a node and tell its token. -/
theorem serve_cases (r : NodeReq) (db : Db) :
    ((serve r db).2 = db ∧ (serve r db).1.tells = none) ∨
      ∃ node newToken name hostname lanIface pubkey subnets pick answer, r.announces = some pubkey ∧ pubkey ≠ "" ∧
        run apply (enrollNode node newToken name hostname lanIface pubkey subnets pick) db =
          .ok (answer, (serve r db).2) ∧
        (serve r db).1.tells = some answer.1 := by
  cases r with
  | poll token order update => exact .inl ⟨rfl, rfl⟩
  | enroll fresh header req =>
    cases hcall : handleEnroll fresh db.enrollSecret header req with
    | error e =>
      left
      simp only [serve, hcall]
      exact ⟨trivial, rfl⟩
    | ok op =>
      obtain ⟨subnets, rfl⟩ := handleEnroll_ok hcall
      simp only [serve, hcall]
      cases hrun : enrolCall (.enrollNode fresh.id fresh.token (if req.name = "" then req.hostname else req.name)
          req.hostname req.lanIface req.publicKey subnets fresh.row) db with
      | error e => exact .inl ⟨rfl, rfl⟩
      | ok a => exact .inr ⟨_, _, _, _, _, _, _, _, a.1, rfl, handleEnroll_key hcall, hrun, rfl⟩

end OneRequest

/-! ## Sequences -/

/-- No request of the sequence fetches the node's configuration. -/
def Unshown (id : Uuid) : List NodeReq → Db → Prop
  | [], _ => True
  | r :: rs, db => ¬ Shown id r db ∧ Unshown id rs (serve r db).2

/-- The token `secret` is not polled with unless an earlier reply told it. -/
def Untold (secret : Option String) : List String → List NodeReq → Db → Prop
  | _, [], _ => True
  | told, r :: rs, db =>
    (∀ token, r.token = some token → secret = some token → token ∈ told) ∧
      Untold secret (told ++ (serve r db).1.tells.toList) rs (serve r db).2

/-- The replies do not depend on the node's secrets. -/
def SecretsKept (n : NodeRow) (reqs : List NodeReq) (db : Db) : Prop :=
  ∀ priv psk db', db'.toTables = rekey db.toTables n.id priv psk → replies reqs db' = replies reqs db

/-- The node has a configuration to fetch and a public key to announce. The key is a text of a column, so it has
    no NUL character. Other rows can have the key as well: the look-up takes any of them. -/
def Exposed (n : NodeRow) : Prop :=
  n.status = .active ∧ n.address ≠ none ∧ n.keys.pub ≠ "" ∧ isText n.keys.pub = true

section Sequences

variable {id : Uuid} {priv psk : String} {db db' : Db} {n : NodeRow} {r : NodeReq} {reqs : List NodeReq}
  {told : List String}

/-- As long as the node's config is not asked for, the answers are the same. -/
theorem replies_alike (hdb : Rekeyed id priv psk db db') (h : Unshown id reqs db) :
    replies reqs db' = replies reqs db := by
  induction reqs generalizing db db' with
  | nil => rfl
  | cons r rs ih =>
    obtain ⟨hreply, hnext⟩ := serve_alike hdb h.1
    simp only [replies, hreply, ih hnext h.2]

theorem secretsKept_of_unshown (hn : n ∈ db.nodes) (h : Unshown n.id reqs db) : SecretsKept n reqs db :=
  fun _ _ _ htables => replies_alike ⟨htables, List.mem_map_of_mem hn⟩ h

/-! ### Nodes without a configuration -/

/-- The node has no configuration to fetch. -/
def Unready (id : Uuid) (db : Db) : Prop :=
  ∃ n ∈ db.nodes, n.id = id ∧ (n.status ≠ .active ∨ n.address = none)

/-- A node that is not ready stays so while no one approves it. -/
theorem unready_serve (h : Unready id db) (r : NodeReq) : Unready id (serve r db).2 := by
  rcases serve_cases r db with ⟨hsame, -⟩ | ⟨_, _, _, _, _, _, _, _, _, -, -, hrun, -⟩
  · rw [hsame]
    exact h
  · obtain ⟨n, hn, hid, hclosed⟩ := h
    obtain ⟨n', hn', hre⟩ := enrollNode_rows (effect_enrollNode hrun) hn
    refine ⟨n', hn', hre.id.trans hid, ?_⟩
    rcases hclosed with hstatus | hnone
    · left
      by_cases hrejected : n.status = .rejected
      · rcases hre.rejected hrejected with h | h <;> rw [h] <;> decide
      · rw [hre.kept hrejected]
        exact hstatus
    · exact .inr (hre.address.trans hnone)

/-- The config of a node that is not ready is not shown. -/
theorem unshown_of_unready (h : Unready id db) : Unshown id reqs db := by
  induction reqs generalizing db with
  | nil => trivial
  | cons r rs ih =>
    refine ⟨?_, ih (unready_serve h r)⟩
    rintro ⟨m, hm, hid, hstatus, haddr, -⟩
    obtain ⟨n, hn, hn_id, hclosed⟩ := h
    obtain rfl := node_eq_of_id db.wf hm hn (hid.trans hn_id.symm)
    exact hclosed.elim (fun h => h hstatus) haddr

/-! ### Nodes whose token is not told -/

/-- The row is there, and its token is none of those. -/
structure Sealed (n : NodeRow) (told : List String) (db : Db) : Prop where
  node : n ∈ db.nodes
  token : ∀ token ∈ told, n.enrollToken ≠ some token

/-- An announcement that is taken for another row, or for none, leaves this one alone and tells another
    token. -/
theorem sealed_announcement {node : Uuid} {newToken name hostname lanIface pubkey : String} {subnets : List Prefix}
    {pick : Nat} {answer : String × NodeStatus} (hn : n ∈ db.nodes)
    (hrun : run apply (enrollNode node newToken name hostname lanIface pubkey subnets pick) db = .ok (answer, db'))
    (hother : n.keys.pub ≠ pubkey) : n ∈ db'.nodes ∧ n.enrollToken ≠ some answer.1 := by
  have hwf := db'.wf
  obtain ⟨t', ht'⟩ : ∃ t', db'.toTables = t' := ⟨_, rfl⟩
  rw [ht'] at hwf ⊢
  rcases run_enrollNode_ok hrun with ⟨m, hm, h⟩ | ⟨-, h⟩
  · obtain ⟨hmem, hkey⟩ := anyRow_filter hm
    obtain ⟨rfl, htables⟩ := run_reenrollNode_ok h
    obtain rfl := ht'.symm.trans htables
    have hne : n.id ≠ m.id := by
      intro hid
      obtain rfl := node_eq_of_id db.wf hn hmem hid
      exact hother (of_decide_eq_true hkey)
    have hkept : n ∈ (db.toTables.editNode m.id (announce (derefOr m.enrollToken newToken) hostname lanIface)).nodes :=
      List.mem_map.mpr ⟨n, hn, if_neg hne⟩
    refine ⟨hkept, fun htoken => ?_⟩
    -- the row that was announced has the token as well
    have htold : announce (derefOr m.enrollToken newToken) hostname lanIface m ∈
        (db.toTables.editNode m.id (announce (derefOr m.enrollToken newToken) hostname lanIface)).nodes :=
      List.mem_map.mpr ⟨m, hmem, if_pos rfl⟩
    have hids := congrArg NodeRow.id (node_eq_of_token hwf hkept htold htoken rfl)
    exact hne hids
  · obtain ⟨rfl, htables⟩ := run_registerNode_ok h
    obtain rfl := ht'.symm.trans htables
    refine ⟨List.mem_append_left _ hn, fun htoken => ?_⟩
    have hsame := node_eq_of_token hwf (List.mem_append_left _ hn) (List.mem_append_right _ List.mem_cons_self)
      htoken rfl
    exact nodup_append_ne hwf.nodes_pkey hn (congrArg NodeRow.id hsame)

/-- An announcement that is accepted carries a public key without a NUL character. -/
theorem isText_of_enrollNode {node : Uuid} {newToken name hostname lanIface pubkey : String} {subnets : List Prefix}
    {pick : Nat} {answer : String × NodeStatus}
    (hrun : run apply (enrollNode node newToken name hostname lanIface pubkey subnets pick) db = .ok (answer, db')) :
    isText pubkey = true := by
  obtain ⟨u, c, hc, -⟩ := run_bind_ok hrun
  obtain ⟨htext, -⟩ := run_orFail_ok hc
  simpa using htext

/-- No announcement can be taken for the node in this sequence: none is of its key, or none can be. -/
def Unannounced (n : NodeRow) (reqs : List NodeReq) : Prop :=
  (∀ r ∈ reqs, r.announces ≠ some n.keys.pub) ∨ n.keys.pub = "" ∨ isText n.keys.pub = false

theorem Unannounced.tail (h : Unannounced n (r :: reqs)) : Unannounced n reqs :=
  h.imp_left fun hnever x hx => hnever x (List.mem_cons_of_mem _ hx)

/-- While others announce other keys, the node's token is told to none of them. -/
theorem sealed_serve (h : Sealed n told db) (hother : Unannounced n (r :: reqs)) :
    Sealed n (told ++ (serve r db).1.tells.toList) (serve r db).2 := by
  rcases serve_cases r db with ⟨hsame, htells⟩ | ⟨_, _, _, _, _, pubkey, _, _, answer, hr, hpub, hrun, htells⟩
  · rw [hsame, htells]
    exact ⟨h.node, fun token htoken => h.token token (by simpa using htoken)⟩
  · have hne : n.keys.pub ≠ pubkey := by
      rintro rfl
      rcases hother with hnever | hnone | hbad
      · exact hnever r List.mem_cons_self hr
      · exact hpub hnone
      · exact Bool.false_ne_true (hbad.symm.trans (isText_of_enrollNode hrun))
    obtain ⟨hnode, hanswer⟩ := sealed_announcement h.node hrun hne
    refine ⟨hnode, fun token htoken => ?_⟩
    rw [htells] at htoken
    rcases List.mem_append.mp htoken with hold | hnew
    · exact h.token token hold
    · rw [List.mem_singleton.mp hnew]
      exact hanswer

/-- To whom the node's token was not told its config is not shown. -/
theorem unshown_of_sealed (h : Sealed n told db) (htold : Untold n.enrollToken told reqs db)
    (hother : Unannounced n reqs) : Unshown n.id reqs db := by
  induction reqs generalizing told db with
  | nil => trivial
  | cons r rs ih =>
    refine ⟨?_, ih (sealed_serve h hother) htold.2 hother.tail⟩
    rintro ⟨m, hm, hid, -, -, token, hr, htoken⟩
    obtain rfl := node_eq_of_id db.wf hm h.node hid
    exact h.token token (htold.1 token hr htoken) htoken

/-! ### The node's token told -/

/-- Another private key that shows as another text. -/
theorem exists_other_key (hub : Hub) (node : Node) (reach : List Prefix) :
    ∃ priv, renderNode hub { node with keys := ⟨priv, node.keys.pub⟩ } reach ≠ renderNode hub node reach := by
  have hsplit := renderNode_split hub node reach
  have hown := hsplit node.keys.priv
  let shown := if node.keys.priv = "" then nodePrivatePlaceholder else node.keys.priv
  have hne : shown ++ "x" ≠ "" := by
    intro h
    have hlen := congrArg String.length h
    simp at hlen
  refine ⟨shown ++ "x", fun h => ?_⟩
  have heq : nodeHead node ++ (shown ++ "x" ++ nodeTail hub node reach) =
      nodeHead node ++ (shown ++ nodeTail hub node reach) := by
    have hother := hsplit (shown ++ "x")
    rw [if_neg hne] at hother
    rw [← hother, h]
    exact hown
  have hlen := congrArg String.length heq
  simp at hlen

/-- The node as it is exported. -/
def exportedNode (t : Tables) (n : NodeRow) (a : Addr) : Node :=
  ⟨n.name, a, t.subnetsOf n.id, n.keys, n.lanIface, n.preshared, false, "", []⟩

/-- A poll with the token of an active node that has an address. -/
theorem serve_poll {a : Addr} {token : String} {order : {f : List Prefix → List Prefix // ∀ l, (f l).Perm l}}
    (hn : n ∈ db.nodes) (hactive : n.status = .active) (haddr : n.address = some a)
    (htoken : n.enrollToken = some token) :
    (serve (.poll token order none) db).1 = .polled ⟨200, .ok ⟨"active",
      renderNode db.hub (exportedNode db.toTables n a) (order.val (reachSubnets db.toTables n.id)), "", ""⟩⟩ := by
  have hfound : nodeByToken db.toTables token = .ok (n.id, .active) := by
    unfold nodeByToken
    split
    · rename_i m hm
      have hm_token : m.enrollToken = some token := by simpa using List.find?_some hm
      obtain rfl := node_eq_of_token db.wf hn (List.mem_of_find?_eq_some hm) htoken hm_token
      rw [hactive]
    · rename_i hnone
      exact absurd htoken (by simpa using List.find?_eq_none.mp hnone n hn)
  have hexport : ∀ reach, NodeAgent.getNodeForExport db.toTables n.id reach =
      .ok (db.hub, exportedNode db.toTables n a, reach) := by
    intro reach
    unfold NodeAgent.getNodeForExport
    cases hfind : db.nodes.find? fun m => m.id = n.id with
    | none => exact absurd (List.find?_eq_none.mp hfind n hn) (by simp)
    | some m =>
      have hid : m.id = n.id := by simpa using List.find?_some hfind
      obtain rfl := node_eq_of_id db.wf (List.mem_of_find?_eq_some hfind) hn hid
      simp only [haddr]
      rfl
  simp only [serve, hfound, Except.bind, hexport]
  rfl

/-- There is always a token that no node has. -/
theorem exists_new_token (db : Db) : ∃ token, ∀ n ∈ db.nodes, n.enrollToken ≠ some token := by
  have hinj : Function.Injective fun k => String.ofList (List.replicate k 'a') := by
    intro k k' h
    have hlen := congrArg (fun s : String => s.toList.length) h
    simpa using hlen
  have : Infinite String := Infinite.of_injective _ hinj
  obtain ⟨token, htoken⟩ := Infinite.exists_notMem_finset (db.nodes.filterMap NodeRow.enrollToken).toFinset
  refine ⟨token, fun n hn h => htoken ?_⟩
  rw [List.mem_toFinset]
  exact List.mem_filterMap.mpr ⟨n, hn, h⟩

/-- The announcement of a node by someone who knows the enrolment secret. `row` is the row that the look-up of
    the key gives first. -/
def enrolReq (newToken secret pubkey : String) (row : Nat) : NodeReq :=
  .enroll { demoFresh with token := newToken, row := row } secret ⟨"", "", "eth0", pubkey, ["192.168.1.0/24"]⟩

theorem handleEnroll_enrolReq {secret pubkey newToken : String} {row : Nat} (hpub : pubkey ≠ "") :
    handleEnroll { demoFresh with token := newToken, row := row } secret secret
        ⟨"", "", "eth0", pubkey, ["192.168.1.0/24"]⟩ =
      .ok (.enrollNode 1 newToken "" "" "eth0" pubkey [⟨.ofBytes 192 168 1 0, 24⟩] row) := by
  have hiface : checkIface "eth0" = .ok () := by decide
  have hlan : parsePrefix "192.168.1.0/24" = some ⟨.ofBytes 192 168 1 0, 24⟩ := by decide +kernel
  unfold handleEnroll
  rw [if_neg (by simp), if_neg (by simp [hpub])]
  simp only [hiface, parseSubnets, hlan]
  rfl

/-- **The leak.** The node's public key is announced, and the token told fetches the configuration. -/
theorem leak (hn : n ∈ db.nodes) (he : Exposed n) :
    ∃ reqs, Untold n.enrollToken [] reqs db ∧ ¬ SecretsKept n reqs db := by
  obtain ⟨hactive, haddr, hpub, htext⟩ := he
  obtain ⟨a, ha⟩ := Option.ne_none_iff_exists'.mp haddr
  obtain ⟨newToken, hnew⟩ := exists_new_token db
  have htexts : ∀ s ∈ [n.keys.pub, "", "eth0"], isText s = true := by
    intro s hs
    simp only [List.mem_cons, List.not_mem_nil, or_false] at hs
    rcases hs with rfl | rfl | rfl
    exacts [htext, by decide, by decide]
  obtain ⟨row, db₁, hrun, htaken⟩ := @accepts_announcement db n newToken n.keys.pub _ 1 "" "" "eth0" hn rfl htexts hnew
    (by decide : IsCidr ⟨.ofBytes 192 168 1 0, 24⟩)
  let token := derefOr n.enrollToken newToken
  let r := enrolReq newToken db.enrollSecret n.keys.pub row
  have hserve : serve r db = (.enrolled token (reannounced n.status), db₁) := by
    simp only [r, enrolReq, serve, handleEnroll_enrolReq hpub, enrolCall, hrun]
    rfl
  -- the row is the announced one, and so is its counterpart
  have hrow : announce token "" "eth0" n ∈ db₁.nodes := by
    exact htaken ▸ List.mem_map.mpr ⟨n, hn, if_pos rfl⟩
  obtain ⟨priv, hpriv⟩ := exists_other_key db₁.hub (exportedNode db₁.toTables (announce token "" "eth0" n) a)
    (reachSubnets db₁.toTables n.id)
  let db' : Db := ⟨rekey db.toTables n.id priv n.preshared, constraints_rekey.mpr db.wf⟩
  have hdb : Rekeyed n.id priv n.preshared db db' := ⟨rfl, List.mem_map_of_mem hn⟩
  obtain ⟨-, hnext⟩ := serve_alike (r := r) hdb fun ⟨_, _, _, _, _, _, htoken, _⟩ =>
    absurd htoken (by simp [r, enrolReq, NodeReq.token])
  rw [hserve] at hnext
  have hrow' : withSecrets priv n.preshared (announce token "" "eth0" n) ∈ (serve r db').2.nodes := by
    rw [hnext.tables]
    exact List.mem_map.mpr ⟨_, hrow, if_pos rfl⟩
  have hstatus : (announce token "" "eth0" n).status = .active := by
    show reannounced n.status = .active
    rw [hactive]
    rfl
  let p : NodeReq := .poll token ⟨fun l => l, List.Perm.refl⟩ none
  refine ⟨[r, p], ⟨fun _ h => absurd h (by simp [r, enrolReq, NodeReq.token]), ?_, trivial⟩, fun hkept => ?_⟩
  · intro t ht _
    rw [hserve]
    simpa [p, NodeReq.token, Reply.tells] using ht.symm
  · have hsecond := congrArg (fun l => l[1]?) (hkept priv n.preshared db' rfl)
    have hreply : (serve p (serve r db').2).1 = (serve p db₁).1 := by
      have h : (serve p (serve r db').2).1 = (serve p (serve r db).2).1 := Option.some.inj hsecond
      rwa [hserve] at h
    rw [serve_poll hrow hstatus ha rfl, serve_poll hrow' hstatus ha rfl, hnext.tables] at hreply
    have hconfig := congrArg Reply.config hreply
    exact hpriv hconfig

/-! ### Result -/

/-- A node that is not exposed has no configuration, or no announcement is of its key. -/
theorem unready_or_unannounced (hn : n ∈ db.nodes) (h : ¬ Exposed n) (reqs : List NodeReq) :
    Unready n.id db ∨ Unannounced n reqs := by
  by_cases hactive : n.status = .active
  · by_cases haddr : n.address = none
    · exact .inl ⟨n, hn, rfl, .inr haddr⟩
    · right
      by_cases hpub : n.keys.pub = ""
      · exact .inr (.inl hpub)
      · exact .inr (.inr (eq_false_of_ne_true fun htext => h ⟨hactive, haddr, hpub, htext⟩))
  · exact .inl ⟨n, hn, rfl, .inl hactive⟩

/-- **A node's secrets** stay with the panel in every sequence of requests without a session, polling with the
    node's token only after it was told, if and only if the node is not exposed; and in every such sequence that
    does not announce the node's public key. -/
theorem node_secrets (hn : n ∈ db.nodes) :
    ((∀ reqs, Untold n.enrollToken [] reqs db → SecretsKept n reqs db) ↔ ¬ Exposed n) ∧
      ∀ reqs, Untold n.enrollToken [] reqs db → (∀ r ∈ reqs, r.announces ≠ some n.keys.pub) →
        SecretsKept n reqs db := by
  have hsealed : Sealed n [] db := ⟨hn, fun _ h => absurd h List.not_mem_nil⟩
  refine ⟨⟨fun hall he => ?_, fun hne reqs htold => ?_⟩, fun reqs htold hnever => ?_⟩
  · obtain ⟨reqs, htold, hleak⟩ := leak hn he
    exact hleak (hall reqs htold)
  · rcases unready_or_unannounced hn hne reqs with hunready | hother
    · exact secretsKept_of_unshown hn (unshown_of_unready hunready)
    · exact secretsKept_of_unshown hn (unshown_of_sealed hsealed htold hother)
  · exact secretsKept_of_unshown hn (unshown_of_sealed hsealed htold (.inl hnever))

theorem untold_none : Untold none told reqs db := by
  induction reqs generalizing told db with
  | nil => trivial
  | cons r rs ih => exact ⟨fun _ _ h => absurd h (by simp), ih⟩

end Sequences

section Example

/-- A panel with one node that it created itself. -/
def createdHome (priv : String) : Option Db :=
  runAll apply Op.body (fun _ _ => true) (Db.boot demoHub "")
    [.createNode 1 "home" "eth0" [⟨.ofBytes 192 168 1 0, 24⟩] ⟨priv, "pub"⟩ "psk"]

/-- A poll with the token that an announcement was told. -/
def homePoll : NodeReq := .poll "token" ⟨fun l => l, List.Perm.refl⟩ none

/-- Its public key announced, then a poll with the token that was told. -/
theorem announcement_leaks : ∃ db n, createdHome "priv" = some db ∧ n ∈ db.nodes ∧ n.keys = ⟨"priv", "pub"⟩ ∧
    Untold n.enrollToken [] [enrolReq "token" "" "pub" 0, homePoll] db ∧
    ¬ SecretsKept n [enrolReq "token" "" "pub" 0, homePoll] db := by
  have hrun : ((createdHome "priv").bind fun db => (createdHome "other").map fun db' =>
      (db.nodes.map fun n => (n.id, n.keys, n.enrollToken),
        decide (db'.toTables = rekey db.toTables 1 "other" "psk"),
        decide ((replies [enrolReq "token" "" "pub" 0, homePoll] db').map Reply.config =
          (replies [enrolReq "token" "" "pub" 0, homePoll] db).map Reply.config))) =
      some ([(1, ⟨"priv", "pub"⟩, none)], true, false) := by decide +kernel
  obtain ⟨db, hdb, hrest⟩ := Option.bind_eq_some_iff.mp hrun
  obtain ⟨db', -, hall⟩ := Option.map_eq_some_iff.mp hrest
  obtain ⟨hnodes, hpair⟩ := Prod.mk.inj hall
  obtain ⟨htables, hreplies⟩ := Prod.mk.inj hpair
  obtain ⟨n, hn, hfields⟩ := List.mem_map.mp (hnodes ▸ List.mem_cons_self :
    ((1, ⟨"priv", "pub"⟩, none) : Uuid × Keypair × Option String) ∈ db.nodes.map fun n => (n.id, n.keys, n.enrollToken))
  obtain ⟨hid, hfields⟩ := Prod.mk.inj hfields
  obtain ⟨hkeys, htoken⟩ := Prod.mk.inj hfields
  refine ⟨db, n, hdb, hn, hkeys, htoken ▸ untold_none, fun hkept => ?_⟩
  have hsame := hkept "other" "psk" db' (hid ▸ of_decide_eq_true htables)
  exact of_decide_eq_false hreplies (congrArg (List.map Reply.config) hsame)

/-- Another public key announced. -/
theorem node_secrets_home : ∃ db n, createdHome "priv" = some db ∧ n ∈ db.nodes ∧
    SecretsKept n [enrolReq "token" "" "other" 0, homePoll] db := by
  have hrun : (createdHome "priv").map (fun db => db.nodes.map fun n => (n.keys.pub, n.enrollToken)) =
      some [("pub", none)] := by decide +kernel
  obtain ⟨db, hdb, hnodes⟩ := Option.map_eq_some_iff.mp hrun
  obtain ⟨n, hn, hfields⟩ := List.mem_map.mp (hnodes ▸ List.mem_cons_self :
    (("pub", none) : String × Option String) ∈ db.nodes.map fun n => (n.keys.pub, n.enrollToken))
  obtain ⟨hpub, htoken⟩ := Prod.mk.inj hfields
  refine ⟨db, n, hdb, hn, (node_secrets hn).2 _ (htoken ▸ untold_none) ?_⟩
  rw [hpub]
  simp [enrolReq, homePoll, NodeReq.announces]

end Example

end Api
end BeautyAwg
