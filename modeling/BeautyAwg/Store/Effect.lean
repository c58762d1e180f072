import BeautyAwg.Store.Ops

/-!
# `Store.Effect`: what each call does

`Effect op t t'` says all that a call can do to the tables when it runs alone and succeeds, guards included (the
check of the texts apart), with one constructor for each outcome. `effect_of_run` derives it from the transaction
bodies; results about sequences of calls are proved from it and unfold no body.

## Contents
- **Statements.** What writes in a row do: `eval_of_applyAll`, `run_write_eval`, `run_exec_ok`.
- **Outcomes.** `nextAddress`, `Tables.withSubnets`, `Effect`.
- **Inversion.** `effect_of_run`, `effect_induction`.
- **Node rows.** `NodeFrom`: where the rows after a call come from; `node_stays`: a row stays until it is
  deleted.
-/

namespace BeautyAwg
namespace Store

open Netip Awg Txn

variable {db db' : Db}

/-! ## Statements -/

/-- Writes that succeed one after another are evaluated one after another. -/
theorem eval_of_applyAll {ws : List Write} (h : applyAll apply ws db = .ok db') :
    ws.foldl Write.eval db.toTables = db'.toTables := by
  induction ws generalizing db with
  | nil =>
    simp only [applyAll, Except.ok.injEq] at h
    rw [h]
    rfl
  | cons w ws ih =>
    obtain ⟨c, hc, hrest⟩ := applyAll_cons_ok.mp h
    rw [List.foldl_cons, apply_eq_ok.mp hc]
    exact ih hrest

/-- A statement on its own. -/
theorem run_exec_ok {α : Type} {w : Write} {f : Db → α} {a : α}
    (h : run apply (Txn.exec w f : Tx α) db = .ok (a, db')) :
    a = f db ∧ w.eval db.toTables = db'.toTables := by
  simp only [exec, run] at h
  cases hw : applyAll apply [w] db with
  | error e => rw [hw] at h; exact absurd h (by simp)
  | ok c =>
    rw [hw] at h
    simp only [Except.ok.injEq, Prod.mk.injEq] at h
    exact ⟨h.1.symm, h.2 ▸ eval_of_applyAll hw⟩

theorem run_write_eval {w : Write} {u : Unit} (h : run apply (Txn.write w : Tx Unit) db = .ok (u, db')) :
    w.eval db.toTables = db'.toTables :=
  (run_exec_ok h).2

theorem run_writes_eval {ws : List Write} {u : Unit}
    (h : run apply (Txn.writes ws : Tx Unit) db = .ok (u, db')) :
    ws.foldl Write.eval db.toTables = db'.toTables := by
  induction ws generalizing db with
  | nil =>
    simp only [writes, run_ret, Except.ok.injEq, Prod.mk.injEq] at h
    rw [h.2]
    rfl
  | cons w ws ih =>
    simp only [writes, run] at h
    cases hw : applyAll apply [w] db with
    | error e => rw [hw] at h; exact absurd h (by simp)
    | ok c =>
      rw [hw] at h
      have hc : w.eval db.toTables = c.toTables := eval_of_applyAll hw
      rw [List.foldl_cons, hc]
      exact ih h

/-- A statement that makes one write for each row it sees, and what follows it. -/
theorem run_stmt_ok {α : Type} {ws : Db → List Write} {k : Db → Tx α} {a : α}
    (h : run apply (Txn.stmt ws k : Tx α) db = .ok (a, db')) :
    ∃ c, (ws db).foldl Write.eval db.toTables = c.toTables ∧ run apply (k db) c = .ok (a, db') := by
  simp only [run] at h
  cases hw : applyAll apply (ws db) db with
  | error e => rw [hw] at h; exact absurd h (by simp)
  | ok c => rw [hw] at h; exact ⟨c, eval_of_applyAll hw, h⟩

/-- `SELECT ... FOR UPDATE` gives a row that meets the condition, and changes nothing. -/
theorem run_lockNode_ok {p : NodeRow → Bool} {pick : Nat} {r : Option NodeRow}
    (h : run apply (lockNode p pick) db = .ok (r, db')) : anyRow pick (db.nodes.filter p) = r ∧ db = db' := by
  rw [run_lockNode, Except.ok.injEq, Prod.mk.injEq] at h
  exact h

theorem run_orFail_ok {α : Type} {e : StoreErr} {o : Option α} {a : α}
    (h : run apply (Txn.orFail e o : Tx α) db = .ok (a, db')) : o = some a ∧ db' = db := by
  cases o with
  | none => exact absurd h (by simp [orFail])
  | some b =>
    simp only [orFail, run_ret, Except.ok.injEq, Prod.mk.injEq] at h
    exact ⟨congrArg some h.1, h.2.symm⟩

/-- What stands behind the check of its texts. -/
theorem run_checked_ok {α : Type} {texts : List String} {t : Tx α} {r : α × Db}
    (h : run apply (checkText texts >>= fun _ => t) db = .ok r) : run apply t db = .ok r := by
  rw [run_checkText_bind] at h
  split at h
  · exact h
  · exact absurd h (by simp)

/-- A write behind a check that passed has its effect. -/
theorem run_checked_eval {texts : List String} {w : Write}
    (h : run apply (checkText texts >>= fun _ => Txn.write w : Tx Unit) db = .ok ((), db')) :
    w.eval db.toTables = db'.toTables :=
  run_write_eval (run_checked_ok h)

/-- Inserting subnets one by one appends them. -/
theorem foldl_insertSubnet (t : Tables) (id : Uuid) (subnets : List Prefix) :
    (subnets.map fun s => Write.insertSubnet ⟨id, s⟩).foldl Write.eval t =
      { t with subnets := t.subnets ++ subnets.map (SubnetRow.mk id) } := by
  induction subnets generalizing t with
  | nil => simp
  | cons s l ih =>
    rw [List.map_cons, List.foldl_cons, ih]
    simp [Write.eval]

/-- Deleting subnets one by one takes each away once. -/
theorem foldl_deleteSubnet (t : Tables) (rows : List SubnetRow) :
    (rows.map Write.deleteSubnet).foldl Write.eval t = { t with subnets := t.subnets.diff rows } := by
  induction rows generalizing t with
  | nil => rfl
  | cons s l ih =>
    rw [List.map_cons, List.foldl_cons, ih, List.diff_cons]
    rfl

theorem foldl_deleteRule (t : Tables) (rows : List RuleRow) :
    (rows.map Write.deleteRule).foldl Write.eval t = { t with grantRules := t.grantRules.diff rows } := by
  induction rows generalizing t with
  | nil => rfl
  | cons s l ih =>
    rw [List.map_cons, List.foldl_cons, ih, List.diff_cons]
    rfl

/-- Deleting the rows that match, one by one, leaves the others. -/
theorem diff_filter {α : Type} [DecidableEq α] {l : List α} (p : α → Bool) :
    l.diff (l.filter p) = l.filter fun a => !p a := by
  induction l with
  | nil => rfl
  | cons a l ih =>
    cases hp : p a with
    | true =>
      rw [List.filter_cons_of_pos hp, List.filter_cons_of_neg (by simp [hp]), List.diff_cons,
        List.erase_cons_head, ih]
    | false =>
      have ha : a ∉ l.filter p := fun hmem => by
        rw [(List.mem_filter.mp hmem).2] at hp
        exact absurd hp (by simp)
      rw [List.filter_cons_of_neg (by simp [hp]), List.filter_cons_of_pos (by simp [hp]),
        List.cons_diff_of_not_mem ha, ih]

/-! ## Outcomes -/

/-- The address `AllocateIP` hands out next. -/
def Tables.nextAddress (t : Tables) : Option Addr :=
  (lastAddr t.hub.poolCIDR).bind fun broadcast =>
    allocLoop t.hub.poolCIDR broadcast (t.hub.address :: t.heldAddrs)
      (2 ^ (t.hub.poolCIDR.addr.bitLen - t.hub.poolCIDR.bits)) t.hub.poolCIDR.masked.addr.next

/-- The subnets after an announcement: replaced, unless it carries none. -/
def Tables.replacedSubnets (t : Tables) (id : Uuid) (subnets : List Prefix) : List SubnetRow :=
  if subnets = [] then t.subnets
  else (t.subnets.filter fun s => s.nodeId ≠ id) ++ subnets.map (SubnetRow.mk id)

section SubnetsOf

variable {t t' : Tables} {node id : Uuid} {lans : List Prefix}

/-- A node's subnets after some were added. -/
theorem subnetsOf_added (h : t'.subnets = t.subnets ++ lans.map (SubnetRow.mk node)) :
    t'.subnetsOf id = t.subnetsOf id ++ if id = node then lans else [] := by
  unfold Tables.subnetsOf
  rw [h, List.filter_append, List.map_append]
  congr 1
  by_cases hid : id = node
  · rw [if_pos hid, List.filter_eq_self.mpr (by simp [hid]), List.map_map]
    exact List.map_id _
  · rw [if_neg hid, List.filter_eq_nil_iff.mpr (by simp [Ne.symm hid])]
    rfl

/-- A node's subnets after those of a node were dropped. -/
theorem subnetsOf_dropped (h : t'.subnets = t.subnets.filter fun s => s.nodeId ≠ node) :
    t'.subnetsOf id = if id = node then [] else t.subnetsOf id := by
  unfold Tables.subnetsOf
  rw [h, List.filter_filter]
  by_cases hid : id = node
  · rw [if_pos hid, List.filter_eq_nil_iff.mpr (by simp [hid])]
    rfl
  · rw [if_neg hid]
    refine congrArg _ (List.filter_congr fun s _ => ?_)
    by_cases hs : s.nodeId = id
    · simp [hs, hid]
    · simp [hs]

/-- A node's subnets after those of a node were replaced; an empty list replaces nothing. -/
theorem subnetsOf_replaced (h : t'.subnets = t.replacedSubnets node lans) :
    t'.subnetsOf id = if id = node ∧ lans ≠ [] then lans else t.subnetsOf id := by
  unfold Tables.replacedSubnets at h
  split at h
  · rename_i hnil
    rw [if_neg (by simp [hnil])]
    unfold Tables.subnetsOf
    rw [h]
  · rename_i hcons
    let t₀ : Tables := { t with subnets := t.subnets.filter fun s => s.nodeId ≠ node }
    have h₀ : t₀.subnetsOf id = if id = node then [] else t.subnetsOf id := subnetsOf_dropped rfl
    have h₁ : t'.subnets = t₀.subnets ++ lans.map (SubnetRow.mk node) := h
    rw [subnetsOf_added h₁, h₀]
    by_cases hid : id = node <;> simp [hid, hcons]

end SubnetsOf

/-- A row added under a new id. -/
theorem nodup_append_ne {n m : NodeRow} {l : List NodeRow} (h : ((l ++ [m]).map NodeRow.id).Nodup)
    (hn : n ∈ l) : n.id ≠ m.id := by
  rw [List.map_append] at h
  exact fun he => (List.nodup_append.mp h).2.2 n.id (List.mem_map_of_mem hn) m.id (by simp) he

/-- The token that is handed out is the row's own or the one drawn. -/
theorem derefOr_cases (p : Option String) (default : String) :
    p = some (derefOr p default) ∨ derefOr p default = default := by
  cases p with
  | none => exact .inr rfl
  | some s =>
    by_cases hs : s = ""
    · exact .inr (by simp [derefOr, hs])
    · exact .inl (by simp [derefOr, hs])

/-- An announcement activates nothing. -/
theorem active_of_announce {token hostname lanIface : String} {n : NodeRow}
    (h : (announce token hostname lanIface n).status = .active) : n.status = .active := by
  simp only [announce, reannounced] at h
  split at h
  · exact absurd h (by simp)
  · exact h

/-- One node's row changed. -/
def Tables.editNode (t : Tables) (id : Uuid) (f : NodeRow → NodeRow) : Tables :=
  { t with nodes := t.nodes.map fun r => if r.id = id then f r else r }

/-- One client's row changed. -/
def Tables.editClient (t : Tables) (id : Uuid) (f : ClientRow → ClientRow) : Tables :=
  { t with clients := t.clients.map fun r => if r.id = id then f r else r }

/-- The row a rule is stored in, if its destination parses. -/
def ruleRow (clientId nodeId : Uuid) (r : RuleDTO) : Option RuleRow :=
  (parsePrefix r.dest).map fun dest =>
    ⟨clientId, nodeId, dest, r.proto, nullIfZero r.portFrom, nullIfZero r.portTo⟩

/-- There is a grant of the node to the client. -/
def Tables.hasGrant (t : Tables) (clientId nodeId : Uuid) : Bool :=
  t.grants.any fun g => g.key = (clientId, nodeId)

/-- The device exits through a node other than this one. -/
def Tables.exitsElsewhere (t : Tables) (clientId nodeId : Uuid) : Bool :=
  t.grants.any fun g => g.exit ∧ g.clientId = clientId ∧ g.nodeId ≠ nodeId ∧
    t.nodes.any fun n => n.id = g.nodeId

/-- The node is active, is not the hub's, and has a subnet. -/
def Tables.Linkable (t : Tables) (id : Uuid) : Prop :=
  ∃ n ∈ t.nodes, n.id = id ∧ n.status = .active ∧ n.isHub = false ∧ t.subnetsOf id ≠ []

/-- What a call that runs alone and succeeds does to the tables. -/
inductive Effect : Op → Tables → Tables → Prop
  | createNode {t id name lanIface subnets keys psk a} (ha : t.nextAddress = some a) :
    Effect (.createNode id name lanIface subnets keys psk) t
      { t with
        nodes := t.nodes ++ [createdNode id name lanIface keys psk a]
        subnets := t.subnets ++ subnets.map (SubnetRow.mk id) }
  | createClient {t id name dns keys psk a} (ha : t.nextAddress = some a) :
    Effect (.createClient id name dns keys psk) t
      { t with clients := t.clients ++ [createdClient id name dns keys psk a] }
  | reenrolled {t id newToken name hostname lanIface pubkey subnets pick r}
      (hr : anyRow pick (t.nodes.filter fun n => n.keys.pub = pubkey) = some r) :
    Effect (.enrollNode id newToken name hostname lanIface pubkey subnets pick) t
      { t.editNode r.id (announce (derefOr r.enrollToken newToken) hostname lanIface) with
        subnets := t.replacedSubnets r.id subnets }
  | registered {t id newToken name hostname lanIface pubkey subnets pick}
      (hr : anyRow pick (t.nodes.filter fun n => n.keys.pub = pubkey) = none) :
    Effect (.enrollNode id newToken name hostname lanIface pubkey subnets pick) t
      { t with
        nodes := t.nodes ++ [enrolledNode id newToken name hostname lanIface pubkey]
        subnets := t.subnets ++ subnets.map (SubnetRow.mk id) }
  | approved {t id r a} (hr : t.nodes.find? (fun n => n.id = id) = some r)
      (hnot : ¬ (r.status = .active ∧ r.address ≠ none)) (ha : t.nextAddress = some a) :
    Effect (.approveNode id) t (t.editNode id (activate a))
  | alreadyApproved {t id r} (hr : t.nodes.find? (fun n => n.id = id) = some r)
      (hactive : r.status = .active ∧ r.address ≠ none) : Effect (.approveNode id) t t
  | rejected {t id} (hid : id ∈ t.nodes.map NodeRow.id) : Effect (.rejectNode id) t (t.editNode id reject)
  | deletedNode {t id} : Effect (.deleteNode id) t (Write.eval t (.deleteNode id))
  | hubPresent {t id} (hhub : t.nodes.any NodeRow.isHub = true) : Effect (.ensureHubNode id) t t
  | hubCreated {t id} (hhub : t.nodes.any NodeRow.isHub = false) :
    Effect (.ensureHubNode id) t
      { t with
        nodes := t.nodes ++ [hubNode id t.hub.address]
        subnets := t.subnets ++ [⟨id, ⟨.v4 0, 0⟩⟩] }
  | renamedNode {t id name} : Effect (.renameNode id name) t (t.editNode id fun n => { n with name := name })
  | nodeDNS {t id dns} : Effect (.setNodeDNS id dns) t (t.editNode id fun n => { n with dns := dns })
  | nodeColor {t id color} :
    Effect (.setNodeColor id color) t (t.editNode id fun n => { n with color := color })
  | nodeDomains {t id domains rows} : Effect (.setNodeDomains id domains) t { t with domains := rows }
  | deletedClient {t id} : Effect (.deleteClient id) t (Write.eval t (.deleteClient id))
  | updatedClient {t id enabled dns} :
    Effect (.updateClient id enabled dns) t
      (t.editClient id fun c => { c with enabled := enabled, dns := dns })
  | renamedClient {t id name} :
    Effect (.renameClient id name) t (t.editClient id fun c => { c with name := name })
  | clientColor {t id color} :
    Effect (.setClientColor id color) t (t.editClient id fun c => { c with color := color })
  | granted {t clientId nodeId} :
    Effect (.setGrant clientId nodeId) t (Write.eval t (.insertGrant ⟨clientId, nodeId, false⟩))
  | revoked {t clientId nodeId} :
    Effect (.deleteGrant clientId nodeId) t (Write.eval t (.deleteGrant (clientId, nodeId)))
  | ruled {t clientId nodeId rules rows} (hg : t.hasGrant clientId nodeId = true)
      (hrows : rules.mapM (ruleRow clientId nodeId) = some rows) :
    Effect (.setGrantRules clientId nodeId rules) t
      { t with grantRules := (t.grantRules.filter fun r => r.key ≠ (clientId, nodeId)) ++ rows }
  | exitSet {t clientId nodeId exit} (hg : t.hasGrant clientId nodeId = true)
      (hhub : (t.nodes.any fun n => n.id = nodeId ∧ n.isHub) = false)
      (hother : exit = true → t.exitsElsewhere clientId nodeId = false) :
    Effect (.setGrantExit clientId nodeId exit) t (Write.eval t (.setExit (clientId, nodeId) exit))
  | linked {t srcId dstId} (hne : srcId ≠ dstId) (hsrc : t.Linkable srcId) (hdst : t.Linkable dstId)
      (hdisj : ∀ a ∈ t.subnetsOf srcId, ∀ b ∈ t.subnetsOf dstId, a.overlaps b = false) :
    Effect (.setNodeLink srcId dstId) t (Write.eval t (.insertLink ⟨srcId, dstId⟩))
  | unlinked {t srcId dstId} :
    Effect (.deleteNodeLink srcId dstId) t (Write.eval t (.deleteLink ⟨srcId, dstId⟩))

/-! ## Inversion -/

/-- Allocating changes nothing and finds the next address. -/
theorem run_allocateIP_ok {a : Addr} (h : run apply allocateIP db = .ok (a, db')) :
    db' = db ∧ db.nextAddress = some a := by
  simp only [allocateIP, run_bind, run_acquire, run_read] at h
  cases hb : lastAddr db.hub.poolCIDR with
  | none => rw [hb] at h; exact absurd h (by simp [orFail])
  | some broadcast =>
    simp only [hb, orFail, run_ret] at h
    obtain ⟨hloop, hdb⟩ := run_orFail_ok h
    refine ⟨hdb, ?_⟩
    simp only [Tables.nextAddress, hb, Option.bind_some]
    exact hloop

/-- The loop over the subnets appends them all. -/
theorem run_insertSubnets_ok {id : Uuid} {subnets : List Prefix} {u : Unit}
    (h : run apply (insertSubnets id subnets) db = .ok (u, db')) :
    db'.toTables = { db.toTables with subnets := db.subnets ++ subnets.map (SubnetRow.mk id) } := by
  rw [← run_writes_eval h, foldl_insertSubnet]

/-- The helper that replaces them does so unless the list is empty. -/
theorem run_replaceSubnets_ok {id : Uuid} {subnets : List Prefix} {u : Unit}
    (h : run apply (replaceSubnets id subnets) db = .ok (u, db')) :
    db'.toTables = { db.toTables with subnets := db.replacedSubnets id subnets } := by
  unfold replaceSubnets at h
  unfold Tables.replacedSubnets
  split at h
  · rename_i hnil
    simp only [pure_def, run_ret, Except.ok.injEq, Prod.mk.injEq] at h
    rw [if_pos hnil, h.2]
  · rename_i hcons
    obtain ⟨c, hc, hrest⟩ := run_stmt_ok h
    rw [foldl_deleteSubnet, diff_filter] at hc
    rw [if_neg hcons, run_insertSubnets_ok hrest, ← hc]
    simp

section Announcement

variable {id : Uuid} {newToken name hostname lanIface pubkey : String} {subnets : List Prefix} {pick : Nat}
  {answer : String × NodeStatus}

/-- An announcement is that of the row that comes back for its key, or of a new one. -/
theorem run_enrollNode_ok
    (h : run apply (enrollNode id newToken name hostname lanIface pubkey subnets pick) db = .ok (answer, db')) :
    (∃ r, anyRow pick (db.nodes.filter fun n => n.keys.pub = pubkey) = some r ∧
        run apply (reenrollNode r newToken hostname lanIface subnets) db = .ok (answer, db')) ∨
      anyRow pick (db.nodes.filter fun n => n.keys.pub = pubkey) = none ∧
        run apply (registerNode id newToken name hostname lanIface pubkey subnets) db = .ok (answer, db') := by
  have hbody := run_checked_ok h
  simp only [run_bind, run_lockNode] at hbody
  cases hfind : anyRow pick (db.nodes.filter fun n => n.keys.pub = pubkey) with
  | some r => rw [hfind] at hbody; exact .inl ⟨r, rfl, hbody⟩
  | none => rw [hfind] at hbody; exact .inr ⟨rfl, hbody⟩

/-- A known node keeps its token. -/
theorem run_reenrollNode_ok {r : NodeRow}
    (h : run apply (reenrollNode r newToken hostname lanIface subnets) db = .ok (answer, db')) :
    answer = (derefOr r.enrollToken newToken, reannounced r.status) ∧
      db'.toTables =
        { db.editNode r.id (announce (derefOr r.enrollToken newToken) hostname lanIface) with
          subnets := db.replacedSubnets r.id subnets } := by
  obtain ⟨u, c, hc, hrest⟩ := run_bind_ok (run_checked_ok h)
  obtain ⟨u', c', hc', hret⟩ := run_bind_ok hrest
  simp only [pure_def, run_ret, Except.ok.injEq, Prod.mk.injEq] at hret
  have hrep := run_replaceSubnets_ok hc'
  rw [hret.2, ← run_write_eval hc] at hrep
  exact ⟨hret.1.symm, hrep⟩

/-- A new node gets the token that was drawn. -/
theorem run_registerNode_ok
    (h : run apply (registerNode id newToken name hostname lanIface pubkey subnets) db = .ok (answer, db')) :
    answer = (newToken, .pending) ∧
      db'.toTables =
        { db.toTables with
          nodes := db.nodes ++ [enrolledNode id newToken name hostname lanIface pubkey]
          subnets := db.subnets ++ subnets.map (SubnetRow.mk id) } := by
  obtain ⟨u, c, hc, hrest⟩ := run_bind_ok (run_checked_ok h)
  obtain ⟨u', c', hc', hret⟩ := run_bind_ok hrest
  simp only [pure_def, run_ret, Except.ok.injEq, Prod.mk.injEq] at hret
  refine ⟨hret.1.symm, ?_⟩
  rw [← hret.2, run_insertSubnets_ok hc', ← run_write_eval hc]
  rfl

/-- The two outcomes of an announcement. -/
theorem effect_enrollNode
    (h : run apply (enrollNode id newToken name hostname lanIface pubkey subnets pick) db = .ok (answer, db')) :
    Effect (.enrollNode id newToken name hostname lanIface pubkey subnets pick) db.toTables db'.toTables := by
  rcases run_enrollNode_ok h with ⟨r, hr, h⟩ | ⟨hr, h⟩
  · rw [(run_reenrollNode_ok h).2]
    exact .reenrolled hr
  · rw [(run_registerNode_ok h).2]
    exact .registered hr

end Announcement

/-- What each call does when it succeeds, read off its transaction. -/
theorem effect_createNode {id : Uuid} {name lanIface : String} {subnets : List Prefix} {keys : Keypair}
    {psk : String} {a : Addr} (h : run apply (createNode id name lanIface subnets keys psk) db = .ok (a, db')) :
    Effect (.createNode id name lanIface subnets keys psk) db.toTables db'.toTables := by
  obtain ⟨a, c, hc, hrest⟩ := run_bind_ok h
  obtain ⟨rfl, ha⟩ := run_allocateIP_ok hc
  obtain ⟨u, c', hc', hbody⟩ := run_bind_ok (run_checked_ok hrest)
  obtain ⟨u', c'', hc'', hret⟩ := run_bind_ok hbody
  simp only [pure_def, run_ret, Except.ok.injEq, Prod.mk.injEq] at hret
  rw [← hret.2, run_insertSubnets_ok hc'', ← run_write_eval hc']
  exact .createNode ha

theorem effect_createClient {id : Uuid} {name dns : String} {keys : Keypair} {psk : String} {a : Addr}
    (h : run apply (createClient id name dns keys psk) db = .ok (a, db')) :
    Effect (.createClient id name dns keys psk) db.toTables db'.toTables := by
  obtain ⟨a, c, hc, hrest⟩ := run_bind_ok h
  obtain ⟨rfl, ha⟩ := run_allocateIP_ok hc
  obtain ⟨u, c', hc', hret⟩ := run_bind_ok (run_checked_ok hrest)
  simp only [pure_def, run_ret, Except.ok.injEq, Prod.mk.injEq] at hret
  rw [← hret.2, ← run_write_eval hc']
  exact .createClient ha

theorem effect_approveNode {id : Uuid} (h : run apply (approveNode id) db = .ok ((), db')) :
    Effect (.approveNode id) db.toTables db'.toTables := by
  obtain ⟨row, c, hlock, hrest⟩ := run_bind_ok h
  obtain ⟨rfl, rfl⟩ := run_lockNode_ok hlock
  obtain ⟨n, c', hc, hbody⟩ := run_bind_ok hrest
  obtain ⟨hfind, rfl⟩ := run_orFail_ok hc
  rw [anyRow_zero] at hfind
  split at hbody
  · rename_i hactive
    simp only [pure_def, run_ret, Except.ok.injEq, Prod.mk.injEq, true_and] at hbody
    rw [← hbody]
    exact .alreadyApproved hfind hactive
  · rename_i hnot
    obtain ⟨a, c', hc', hwrite⟩ := run_bind_ok hbody
    obtain ⟨rfl, ha⟩ := run_allocateIP_ok hc'
    rw [← run_write_eval hwrite]
    exact .approved hfind hnot ha

theorem effect_rejectNode {id : Uuid} (h : run apply (rejectNode id) db = .ok ((), db')) :
    Effect (.rejectNode id) db.toTables db'.toTables := by
  obtain ⟨rows, c, hc, hrest⟩ := run_bind_ok h
  obtain ⟨hrows, heval⟩ := run_exec_ok hc
  split at hrest
  · exact absurd hrest (by simp)
  · rename_i hne
    simp only [pure_def, run_ret, Except.ok.injEq, Prod.mk.injEq, true_and] at hrest
    rw [← hrest, ← heval]
    obtain ⟨n, hn⟩ := List.exists_mem_of_ne_nil _ hne
    rw [hrows] at hn
    obtain ⟨hn, hid⟩ := List.mem_filter.mp hn
    exact .rejected (List.mem_map.mpr ⟨n, hn, of_decide_eq_true hid⟩)

theorem effect_ensureHubNode {id : Uuid} (h : run apply (ensureHubNode id) db = .ok ((), db')) :
    Effect (.ensureHubNode id) db.toTables db'.toTables := by
  obtain ⟨present, c, hread, h⟩ := run_bind_ok h
  simp only [run_read, Except.ok.injEq, Prod.mk.injEq] at hread
  obtain ⟨rfl, rfl⟩ := hread
  split at h
  · rename_i hhub
    simp only [pure_def, run_ret, Except.ok.injEq, Prod.mk.injEq, true_and] at h
    rw [← h]
    exact .hubPresent hhub
  · rename_i hhub
    obtain ⟨a, c, hc, hrest⟩ := run_bind_ok h
    simp only [run_read, Except.ok.injEq, Prod.mk.injEq] at hc
    obtain ⟨rfl, rfl⟩ := hc
    obtain ⟨u, c', hc', hsub⟩ := run_bind_ok hrest
    rw [run_insertSubnets_ok hsub, ← run_write_eval hc']
    exact .hubCreated (by simpa using hhub)

theorem foldl_deleteDomain (t : Tables) (ds : List DomainRow) :
    ∃ rows, (ds.map Write.deleteDomain).foldl Write.eval t = { t with domains := rows } := by
  induction ds generalizing t with
  | nil => exact ⟨t.domains, rfl⟩
  | cons d l ih =>
    obtain ⟨rows, hrows⟩ := ih (Write.eval t (.deleteDomain d))
    exact ⟨rows, by rw [List.map_cons, List.foldl_cons, hrows]; rfl⟩

theorem foldl_insertDomain (t : Tables) (id : Uuid) (ds : List String) :
    ∃ rows, (ds.map fun d => Write.insertDomain ⟨id, d⟩).foldl Write.eval t = { t with domains := rows } := by
  induction ds generalizing t with
  | nil => exact ⟨t.domains, rfl⟩
  | cons d l ih =>
    obtain ⟨rows, hrows⟩ := ih (Write.eval t (.insertDomain ⟨id, d⟩))
    exact ⟨rows, by rw [List.map_cons, List.foldl_cons, hrows]; rfl⟩

theorem effect_setNodeDomains {id : Uuid} {domains : List String}
    (h : run apply (setNodeDomains id domains) db = .ok ((), db')) :
    Effect (.setNodeDomains id domains) db.toTables db'.toTables := by
  obtain ⟨c, hc, hrest⟩ := run_stmt_ok h
  have heval := run_writes_eval (run_checked_ok hrest)
  rw [← hc] at heval
  obtain ⟨rows, hrows⟩ := foldl_deleteDomain db.toTables (db.domains.filter fun d => d.nodeId = id)
  rw [hrows] at heval
  obtain ⟨rows', hrows'⟩ := foldl_insertDomain { db.toTables with domains := rows } id (normalDomains domains)
  rw [hrows'] at heval
  rw [← heval]
  exact .nodeDomains

theorem run_checkColor_ok {color : String} {w : Write}
    (h : run apply (checkColor color >>= fun _ => Txn.write w : Tx Unit) db = .ok ((), db')) :
    w.eval db.toTables = db'.toTables := by
  obtain ⟨u, c, hc, hrest⟩ := run_bind_ok h
  unfold checkColor at hc
  split at hc
  · exact absurd hc (by simp)
  · simp only [pure_def, run_ret, Except.ok.injEq, Prod.mk.injEq] at hc
    rw [hc.2]
    exact run_write_eval hrest

/-- The rules are inserted after the rows that are there, and each destination parses. -/
theorem run_insertRules_ok {clientId nodeId : Uuid} {rules : List RuleDTO} {u : Unit}
    (h : run apply (insertRules clientId nodeId rules) db = .ok (u, db')) :
    ∃ rows, rules.mapM (ruleRow clientId nodeId) = some rows ∧
      db'.toTables = { db.toTables with grantRules := db.grantRules ++ rows } := by
  induction rules generalizing db with
  | nil =>
    simp only [insertRules, pure_def, run_ret, Except.ok.injEq, Prod.mk.injEq] at h
    exact ⟨[], rfl, by simp [h.2]⟩
  | cons r rs ih =>
    obtain ⟨dest, c, hc, hrest⟩ := run_bind_ok h
    obtain ⟨hdest, rfl⟩ := run_orFail_ok hc
    split at hrest
    · exact absurd hrest (by simp)
    · obtain ⟨u', c', hc', htail⟩ := run_bind_ok hrest
      obtain ⟨rows, hrows, hdb⟩ := ih htail
      refine ⟨⟨clientId, nodeId, dest, r.proto, nullIfZero r.portFrom, nullIfZero r.portTo⟩ :: rows, ?_, ?_⟩
      · rw [List.mapM_cons, ruleRow, hdest, hrows]
        rfl
      · rw [hdb, ← run_write_eval hc']
        simp [Write.eval]

/-- The rules of one grant give way to the new ones. -/
theorem effect_setGrantRules {clientId nodeId : Uuid} {rules : List RuleDTO}
    (h : run apply (setGrantRules clientId nodeId rules) db = .ok ((), db')) :
    Effect (.setGrantRules clientId nodeId rules) db.toTables db'.toTables := by
  obtain ⟨exist, c, hread, h⟩ := run_bind_ok h
  simp only [run_read, Except.ok.injEq, Prod.mk.injEq] at hread
  obtain ⟨rfl, rfl⟩ := hread
  split at h
  · rename_i hg
    obtain ⟨c, hc, hrest⟩ := run_stmt_ok h
    rw [foldl_deleteRule, diff_filter] at hc
    obtain ⟨rows, hrows, hdb⟩ := run_insertRules_ok hrest
    rw [hdb, ← hc]
    simpa using Effect.ruled hg hrows
  · exact absurd h (by simp)

/-- The refusal is passed when the device exits nowhere else. -/
theorem run_refuseOtherExit_ok {clientId nodeId : Uuid} {exit : Bool} {u : Unit}
    (h : run apply (refuseOtherExit clientId nodeId exit) db = .ok (u, db')) :
    db = db' ∧ (exit = true → db.exitsElsewhere clientId nodeId = false) := by
  unfold refuseOtherExit at h
  split at h
  · obtain ⟨names, c, hread, h⟩ := run_bind_ok h
    simp only [run_read, Except.ok.injEq, Prod.mk.injEq] at hread
    obtain ⟨rfl, rfl⟩ := hread
    cases hnames : otherExits clientId nodeId db with
    | cons name l =>
      rw [hnames] at h
      exact absurd h (by simp)
    | nil =>
      rw [hnames] at h
      simp only [pure_def, run_ret, Except.ok.injEq, Prod.mk.injEq] at h
      refine ⟨h.2, fun _ => ?_⟩
      rw [Tables.exitsElsewhere, List.any_eq_false]
      intro g hg hother
      obtain ⟨hex, hc, hn, hnode⟩ := of_decide_eq_true hother
      obtain ⟨n, hmem, hid⟩ := List.any_eq_true.mp hnode
      have hin : n.name ∈ otherExits clientId nodeId db :=
        List.mem_flatMap.mpr ⟨g, List.mem_filter.mpr ⟨hg, by simp [hex, hc, hn]⟩,
          List.mem_map_of_mem (List.mem_filter.mpr ⟨hmem, hid⟩)⟩
      rw [hnames] at hin
      exact absurd hin List.not_mem_nil
  · rename_i hexit
    simp only [pure_def, run_ret, Except.ok.injEq, Prod.mk.injEq] at h
    exact ⟨h.2, fun he => absurd he hexit⟩

/-- The exit flag of one grant is set. -/
theorem effect_setGrantExit {clientId nodeId : Uuid} {exit : Bool}
    (h : run apply (setGrantExit clientId nodeId exit) db = .ok ((), db')) :
    Effect (.setGrantExit clientId nodeId exit) db.toTables db'.toTables := by
  obtain ⟨⟨exist, isHub⟩, c, hread, h⟩ := run_bind_ok h
  simp only [run_read, Except.ok.injEq, Prod.mk.injEq] at hread
  obtain ⟨⟨rfl, rfl⟩, rfl⟩ := hread
  dsimp only at h
  split at h
  · exact absurd h (by simp)
  · rename_i hg
    split at h
    · exact absurd h (by simp)
    · rename_i hhub
      obtain ⟨u, c', hc', hwrite⟩ := run_bind_ok h
      obtain ⟨rfl, hother⟩ := run_refuseOtherExit_ok hc'
      rw [← run_write_eval hwrite]
      have hexist : grantExists clientId nodeId db = true := by simpa using hg
      exact .exitSet hexist (by simpa using hhub) hother

/-- A node with subnets that is not the hub's own may be linked. -/
theorem linkable_of_nodeMeta {id : Uuid} {lans : List Prefix} (h : nodeMeta db id = some (false, lans))
    (hne : lans ≠ []) : db.Linkable id ∧ lans = db.subnetsOf id := by
  obtain ⟨n, hn, he⟩ := Option.map_eq_some_iff.mp h
  obtain ⟨hid, hactive⟩ : n.id = id ∧ n.status = .active := by simpa using List.find?_some hn
  obtain ⟨hhub, hlans⟩ := Prod.mk.inj he
  exact ⟨⟨n, List.mem_of_find?_eq_some hn, hid, hactive, hhub, hlans ▸ hne⟩, hlans.symm⟩

/-- A link is added between two nodes that may be linked. -/
theorem effect_setNodeLink {srcId dstId : Uuid} (h : run apply (setNodeLink srcId dstId) db = .ok ((), db')) :
    Effect (.setNodeLink srcId dstId) db.toTables db'.toTables := by
  unfold setNodeLink at h
  split at h
  · exact absurd h (by simp)
  · rename_i hne
    obtain ⟨found, c, hread, h⟩ := run_bind_ok h
    simp only [run_read, Except.ok.injEq, Prod.mk.injEq] at hread
    obtain ⟨hfound, rfl⟩ := hread
    split at h
    · rename_i srcHub src dstHub dst
      obtain ⟨hsrc, hdst⟩ := Prod.mk.inj hfound
      split at h
      · exact absurd h (by simp)
      · rename_i hhub
        obtain ⟨rfl, rfl⟩ : srcHub = false ∧ dstHub = false := by simpa using hhub
        split at h
        · exact absurd h (by simp)
        · rename_i hempty
          rw [not_or] at hempty
          obtain ⟨hs, rfl⟩ := linkable_of_nodeMeta hsrc hempty.1
          obtain ⟨hd, rfl⟩ := linkable_of_nodeMeta hdst hempty.2
          split at h
          · exact absurd h (by simp)
          · rename_i hnone
            rw [← run_write_eval h]
            -- the double loop found no pair that overlaps
            refine .linked hne hs hd fun a ha b hb => ?_
            have hpair : (a, b) ∈ (db.subnetsOf srcId).flatMap fun a => (db.subnetsOf dstId).map fun b => (a, b) :=
              List.mem_flatMap.mpr ⟨a, ha, List.mem_map_of_mem hb⟩
            simpa using List.find?_eq_none.mp hnone _ hpair
    · exact absurd h (by simp)

/-- **Inversion.** What a call that runs alone and succeeds did is one of its outcomes. -/
theorem effect_of_run {op : Op} (h : run apply op.body db = .ok ((), db')) :
    Effect op db.toTables db'.toTables := by
  cases op with
  | createNode id name lanIface subnets keys psk =>
    obtain ⟨a, ha⟩ := run_discard h
    exact effect_createNode ha
  | createClient id name dns keys psk =>
    obtain ⟨a, ha⟩ := run_discard h
    exact effect_createClient ha
  | enrollNode id newToken name hostname lanIface pubkey subnets pick =>
    obtain ⟨a, ha⟩ := run_discard h
    exact effect_enrollNode ha
  | approveNode id => exact effect_approveNode h
  | rejectNode id => exact effect_rejectNode h
  | deleteNode id => rw [← run_write_eval h]; exact .deletedNode
  | ensureHubNode id => exact effect_ensureHubNode h
  | renameNode id name => rw [← run_checked_eval h]; exact .renamedNode
  | setNodeDNS id dns => rw [← run_checked_eval h]; exact .nodeDNS
  | setNodeColor id color => rw [← run_checkColor_ok h]; exact .nodeColor
  | setNodeDomains id domains => exact effect_setNodeDomains h
  | deleteClient id => rw [← run_write_eval h]; exact .deletedClient
  | updateClient id enabled dns => rw [← run_checked_eval h]; exact .updatedClient
  | renameClient id name => rw [← run_checked_eval h]; exact .renamedClient
  | setClientColor id color => rw [← run_checkColor_ok h]; exact .clientColor
  | setGrant clientId nodeId => rw [← run_write_eval h]; exact .granted
  | deleteGrant clientId nodeId => rw [← run_write_eval h]; exact .revoked
  | setGrantRules clientId nodeId rules => exact effect_setGrantRules h
  | setGrantExit clientId nodeId exit => exact effect_setGrantExit h
  | setNodeLink srcId dstId => exact effect_setNodeLink h
  | deleteNodeLink srcId dstId => rw [← run_write_eval h]; exact .unlinked

/-- A property of the tables that every outcome keeps, where the call is allowed, holds after every
    sequence of calls. -/
theorem effect_induction {P : Op → Db → Prop} {I : Tables → Prop}
    (hstep : ∀ op db t', P op db → Effect op db.toTables t' → t'.Constraints → I db.toTables → I t')
    (hcalls : Calls apply Op.body P db db') (h : I db.toTables) : I db'.toTables := by
  induction hcalls with
  | refl => exact h
  | @tail c c' _ hcall ih =>
    obtain ⟨op, hP, hrun⟩ := hcall
    exact hstep op c c'.toTables hP (effect_of_run hrun) c'.wf ih

/-! ## Node rows -/

/-- Where a node's row after a call comes from. -/
inductive NodeFrom (t : Tables) : Op → NodeRow → Prop
  | kept {op n n'} (hn : n ∈ t.nodes) (hid : n'.id = n.id) (hkeys : n'.keys = n.keys)
      (htoken : n'.enrollToken = n.enrollToken) (hhub : n'.isHub = n.isHub) : NodeFrom t op n'
  | announced {id newToken name hostname lanIface pubkey subnets pick n} (hn : n ∈ t.nodes)
      (hpub : n.keys.pub = pubkey) :
    NodeFrom t (.enrollNode id newToken name hostname lanIface pubkey subnets pick)
      (announce (derefOr n.enrollToken newToken) hostname lanIface n)
  | created {id name lanIface subnets keys psk a} :
    NodeFrom t (.createNode id name lanIface subnets keys psk) (createdNode id name lanIface keys psk a)
  | registered {id newToken name hostname lanIface pubkey subnets pick} (hnew : ∀ n ∈ t.nodes, n.keys.pub ≠ pubkey) :
    NodeFrom t (.enrollNode id newToken name hostname lanIface pubkey subnets pick)
      (enrolledNode id newToken name hostname lanIface pubkey)
  | hub {id a} (hnone : t.nodes.any NodeRow.isHub = false) : NodeFrom t (.ensureHubNode id) (hubNode id a)

section NodeRows

variable {t t' : Tables} {op : Op} {n n' : NodeRow}

theorem NodeFrom.self (hn : n ∈ t.nodes) : NodeFrom t op n := .kept hn rfl rfl rfl rfl

/-- A row of a longer table is an old one or the new one. -/
theorem nodeFrom_append {m : NodeRow} (hm : NodeFrom t op m) (hn' : n' ∈ t.nodes ++ [m]) : NodeFrom t op n' := by
  rcases List.mem_append.mp hn' with hold | hnew
  · exact .self hold
  · rw [List.mem_singleton.mp hnew]
    exact hm

/-- A row of an edited table is an old one or an edited one. -/
theorem nodeFrom_edit {id : Uuid} {f : NodeRow → NodeRow} (hf : ∀ n ∈ t.nodes, n.id = id → NodeFrom t op (f n))
    (hn' : n' ∈ (t.editNode id f).nodes) : NodeFrom t op n' := by
  obtain ⟨n, hn, rfl⟩ := List.mem_map.mp hn'
  split
  · rename_i hid
    exact hf n hn hid
  · exact .self hn

/-- Where each row of the nodes comes from after a call. -/
theorem nodeFrom_of_effect (wf : t.Constraints) (h : Effect op t t') (hn' : n' ∈ t'.nodes) : NodeFrom t op n' := by
  cases h with
  | createNode => exact nodeFrom_append .created hn'
  | registered hr =>
    refine nodeFrom_append (.registered fun n hn => ?_) hn'
    simpa using anyRow_filter_none hr hn
  | hubCreated hhub => exact nodeFrom_append (.hub hhub) hn'
  | @reenrolled _ id newToken name hostname lanIface pubkey subnets pick r hr =>
    refine nodeFrom_edit (fun n hn hid => ?_) hn'
    obtain rfl := node_eq_of_id wf hn (anyRow_filter hr).1 hid
    exact .announced hn (by simpa using (anyRow_filter hr).2)
  | approved | rejected | renamedNode | nodeDNS | nodeColor =>
    refine nodeFrom_edit ?_ hn'
    exact fun n hn _ => .kept hn rfl rfl rfl rfl
  | deletedNode => exact .self (List.mem_filter.mp hn').1
  | _ => exact .self hn'

/-- What stays of a row that is not deleted. -/
structure Stays (n n' : NodeRow) : Prop where
  id : n'.id = n.id
  keys : n'.keys = n.keys
  isHub : n'.isHub = n.isHub
  token : n'.enrollToken = n.enrollToken ∨ ∃ newToken, n'.enrollToken = some (derefOr n.enrollToken newToken)

theorem Stays.refl (n : NodeRow) : Stays n n := ⟨rfl, rfl, rfl, .inl rfl⟩

/-- A row is found again after an edit that keeps its identity. -/
theorem stays_edit {id : Uuid} {f : NodeRow → NodeRow} (hf : n.id = id → Stays n (f n)) (hn : n ∈ t.nodes) :
    ∃ n' ∈ (t.editNode id f).nodes, Stays n n' := by
  refine ⟨_, List.mem_map_of_mem hn, ?_⟩
  split
  · rename_i hid
    exact hf hid
  · exact .refl n

/-- A row is found again after any call but its own deletion. -/
theorem node_stays (wf : t.Constraints) (h : Effect op t t') (hn : n ∈ t.nodes) (hkept : op ≠ .deleteNode n.id) :
    ∃ n' ∈ t'.nodes, Stays n n' := by
  cases h with
  | createNode | registered | hubCreated => exact ⟨n, List.mem_append_left _ hn, .refl n⟩
  | @reenrolled _ id newToken name hostname lanIface pubkey subnets pick r hr =>
    refine stays_edit (fun hid => ?_) hn
    obtain rfl := node_eq_of_id wf hn (anyRow_filter hr).1 hid
    exact ⟨rfl, rfl, rfl, .inr ⟨newToken, rfl⟩⟩
  | approved | rejected | renamedNode | nodeDNS | nodeColor =>
    exact stays_edit (fun _ => ⟨rfl, rfl, rfl, .inl rfl⟩) hn
  | @deletedNode _ id =>
    refine ⟨n, List.mem_filter.mpr ⟨hn, decide_eq_true fun hid => hkept ?_⟩, .refl n⟩
    rw [hid]
  | _ => exact ⟨n, hn, .refl n⟩

/-- A node that is deleted leaves no row. -/
theorem node_deleted {id : Uuid} (h : Effect (.deleteNode id) t t') (hn' : n' ∈ t'.nodes) : n'.id ≠ id := by
  cases h
  exact of_decide_eq_true (List.mem_filter.mp hn').2

end NodeRows

end Store
end BeautyAwg
