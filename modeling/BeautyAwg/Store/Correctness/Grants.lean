import BeautyAwg.Lib.Rows
import BeautyAwg.Store.Effect
import BeautyAwg.Store.Export

/-!
# `Store.Correctness.Grants`: the two readings of the grants table

`Snapshot` and `GetClientForExport` join the grants with their clients, nodes and rules by separate code.
Both build one grant of each row that counts (`Carries`): for the snapshot the rows of an enabled client
and a live node, for the export those of its client, enabled or not, and a live node.

## Contents
- **Rows.** `shownGrants`, `Carries`; what determines the row of a grant.
- **The two readings.** `snapshot_grants`, `export_grants`, `export_agrees`.
- **Closing.** `Op.closes`: after a call that takes access away nothing built from the row is left.
-/

namespace BeautyAwg
namespace Store

open Netip Awg Txn

/-! ## Rows -/

/-- There is such a client, and it is enabled. -/
def Tables.clientEnabled (t : Tables) (id : Uuid) : Bool := t.clients.any fun c => c.id = id ∧ c.enabled

/-- There is such a node; it is active and has an address. -/
def Tables.nodeLive (t : Tables) (id : Uuid) : Bool :=
  t.nodes.any fun n => n.id = id ∧ n.status = .active ∧ n.address ≠ none

/-- The grants of an enabled client on an active node with an address. -/
def Tables.shownGrants (t : Tables) : List GrantRow :=
  t.grants.filter fun g => t.clientEnabled g.clientId && t.nodeLive g.nodeId

/-- The grant carries what the tables hold for its row. -/
structure Carries (t : Tables) (row : GrantRow) (g : Grant) : Prop where
  client : ∃ c ∈ t.clients, c.id = row.clientId ∧ g.clientAddr = c.address
  node : ∃ n ∈ t.nodes, n.id = row.nodeId ∧ n.status = .active ∧ n.address = some g.nodeAddr ∧
    g.subnets.Perm (t.subnetsOf n.id) ∧ g.nodeDNS = n.dns ∧ g.isExit = n.isHub ∧
    g.nodeExit = (row.exit && !n.isHub)
  rules : g.rules.Perm ((t.grantRules.filter fun r => r.key = row.key).map toRule)

/-- The two grants are one, up to the domains and the order of subnets and rules. -/
structure Same (g g' : Grant) : Prop where
  clientAddr : g.clientAddr = g'.clientAddr
  nodeAddr : g.nodeAddr = g'.nodeAddr
  subnets : g.subnets.Perm g'.subnets
  rules : g.rules.Perm g'.rules
  isExit : g.isExit = g'.isExit
  nodeExit : g.nodeExit = g'.nodeExit
  nodeDNS : g.nodeDNS = g'.nodeDNS

variable {db db' : Db} {row row' : GrantRow} {g g' : Grant} {out : Snapshot} {exp : ClientExport} {id : Uuid}

/-- Tunnel addresses of nodes are unique. -/
theorem node_of_address (db : Db) {n n' : NodeRow} {a : Addr} (hn : n ∈ db.nodes) (hn' : n' ∈ db.nodes)
    (h : n.address = some a) (h' : n'.address = some a) : n = n' :=
  eq_of_nodup_filterMap db.wf.nodes_address_key hn hn' h h'

/-- A grant is of the device whose address it carries. -/
theorem Carries.clientAddr_iff (h : Carries db.toTables row g) {c : ClientRow} (hc : c ∈ db.clients) :
    row.clientId = c.id ↔ g.clientAddr = c.address := by
  obtain ⟨c', hc', hid, haddr⟩ := h.client
  constructor
  · intro he
    rw [haddr, client_eq_of_id db.wf hc' hc (hid.trans he)]
  · intro he
    rw [← hid, client_eq_of_address db.wf hc' hc (haddr.symm.trans he)]

/-- A grant is carried by one row only. -/
theorem Carries.row_unique (h : Carries db.toTables row g) (h' : Carries db.toTables row' g)
    (hrow : row ∈ db.grants) (hrow' : row' ∈ db.grants) : row = row' := by
  obtain ⟨c, hc, hid, haddr⟩ := h'.client
  obtain ⟨n, hn, hnid, -, hna, -⟩ := h.node
  obtain ⟨n', hn', hnid', -, hna', -⟩ := h'.node
  have hclient : row.clientId = row'.clientId := ((h.clientAddr_iff hc).mpr haddr).trans hid
  have hnode : row.nodeId = row'.nodeId := by rw [← hnid, ← hnid', node_of_address db hn hn' hna hna']
  exact grant_eq_of_key db.wf hrow hrow' (Prod.ext hclient hnode)

/-- What one row carries is the same wherever it is read. -/
theorem Carries.same (h : Carries db.toTables row g) (h' : Carries db.toTables row g') : Same g g' := by
  obtain ⟨c, hc, hid, haddr⟩ := h.client
  obtain ⟨c', hc', hid', haddr'⟩ := h'.client
  obtain ⟨n, hn, hnid, -, hna, hsub, hdns, hexit, hnexit⟩ := h.node
  obtain ⟨n', hn', hnid', -, hna', hsub', hdns', hexit', hnexit'⟩ := h'.node
  obtain rfl := client_eq_of_id db.wf hc hc' (hid.trans hid'.symm)
  obtain rfl := node_eq_of_id db.wf hn hn' (hnid.trans hnid'.symm)
  constructor
  · rw [haddr, haddr']
  · exact Option.some.inj (hna.symm.trans hna')
  · exact hsub.trans hsub'.symm
  · exact h.rules.trans h'.rules.symm
  · rw [hexit, hexit']
  · rw [hnexit, hnexit']
  · rw [hdns, hdns']

/-! ## The two readings -/

section Readings

variable {t : Tables} {nodes : List (Uuid × Node)} {clients : List (Uuid × Client)} {rules : List RuleRow}

theorem lookup_isSome_iff_mem {α : Type} {l : List (Uuid × α)} {id : Uuid} :
    (l.lookup id).isSome = true ↔ ∃ a, (id, a) ∈ l := by
  rw [List.lookup_isSome_iff]
  constructor
  · rintro ⟨⟨k, a⟩, h, he⟩
    obtain rfl : id = k := by simpa using he
    exact ⟨a, h⟩
  · rintro ⟨a, h⟩
    exact ⟨(id, a), h, by simp⟩

/-- A node is found in the list when it is live. -/
theorem NodesRead.lookup_isSome (h : NodesRead t nodes) : (nodes.lookup id).isSome = t.nodeLive id := by
  rw [Bool.eq_iff_iff, lookup_isSome_iff_mem, Tables.nodeLive, List.any_eq_true]
  constructor
  · rintro ⟨n, hn⟩
    obtain ⟨r, hr, hid, -⟩ := h.row hn
    obtain ⟨hr, hlive⟩ := List.mem_filter.mp hr
    exact ⟨r, hr, by simpa [hid] using hlive⟩
  · rintro ⟨r, hr, hlive⟩
    simp only [decide_eq_true_eq] at hlive
    obtain ⟨hid, hlive⟩ := hlive
    obtain ⟨n, hn, -⟩ := h.listed (List.mem_filter.mpr ⟨hr, by simpa using hlive⟩)
    exact ⟨n, hid ▸ hn⟩

/-- A device is found in the list when it is enabled. -/
theorem ClientsRead.lookup_isSome (h : ClientsRead t clients) :
    (clients.lookup id).isSome = t.clientEnabled id := by
  rw [Bool.eq_iff_iff, lookup_isSome_iff_mem, Tables.clientEnabled, List.any_eq_true]
  constructor
  · rintro ⟨c, hc⟩
    obtain ⟨r, hr, henabled, hid, -⟩ := h.row hc
    exact ⟨r, hr, by simp [hid, henabled]⟩
  · rintro ⟨r, hr, he⟩
    simp only [decide_eq_true_eq] at he
    obtain ⟨hid, he⟩ := he
    refine ⟨r.toClient, h.2.mem_iff.mpr (List.mem_map.mpr ⟨r, List.mem_filter.mpr ⟨hr, he⟩, ?_⟩)⟩
    rw [hid]

/-- A joined grant carries its row. -/
theorem joinGrant_carries (hnodes : NodesRead t nodes) (hclients : ClientsRead t clients)
    (hrules : RulesRead t rules) (h : joinGrant nodes clients rules row = some g) : Carries t row g := by
  unfold joinGrant at h
  split at h
  · rename_i client node hc hn
    obtain ⟨r, hr, hrid, hs, he⟩ := hnodes.row (mem_of_lookup hn)
    obtain ⟨c, hcm, -, hcid, rfl⟩ := hclients.row (mem_of_lookup hc)
    obtain rfl := Option.some.inj h
    obtain ⟨hr, hlive⟩ := List.mem_filter.mp hr
    obtain ⟨hactive, haddr⟩ := of_decide_eq_true hlive
    obtain ⟨a, ha⟩ := Option.ne_none_iff_exists'.mp haddr
    have haddr : node.address = a := by
      rw [he]
      show r.address.getD .invalid = a
      rw [ha]
      rfl
    refine ⟨⟨c, hcm, hcid, rfl⟩, ⟨r, hr, hrid, hactive, ?_, hrid ▸ hs, ?_, ?_, ?_⟩, (hrules.filter _).map _⟩
    · show r.address = some node.address
      rw [ha, haddr]
    all_goals rw [he]; rfl
  · exact absurd h (by simp)

/-- A grant is joined when both its ends are found. -/
theorem joinGrant_isSome : (joinGrant nodes clients rules row).isSome =
    ((clients.lookup row.clientId).isSome && (nodes.lookup row.nodeId).isSome) := by
  unfold joinGrant
  cases clients.lookup row.clientId <;> cases nodes.lookup row.nodeId <;> rfl

/-- The snapshot has one grant for each row shown. -/
theorem snapshot_grants (h : SnapshotOf t out) : OnePer (Carries t) t.shownGrants out.grants := by
  obtain ⟨nodes, clients, rules, grants, links, hnodes, hclients, hrules, hgrants, -, rfl⟩ := h
  have hone : OnePer (Carries t) (grants.filter fun g => t.clientEnabled g.clientId && t.nodeLive g.nodeId)
      (grants.filterMap (joinGrant nodes clients rules)) := by
    refine OnePer.of_filterMap (fun row _ => ?_) fun row _ g => joinGrant_carries hnodes hclients hrules
    rw [joinGrant_isSome, hnodes.lookup_isSome, hclients.lookup_isSome]
  refine hone.congr_rows ((hgrants.filter _).trans ?_)
  rw [Tables.enabledGrants, List.filter_filter, Tables.shownGrants]
  refine List.Perm.of_eq (List.filter_congr fun g _ => ?_)
  show ((t.clientEnabled g.clientId && t.nodeLive g.nodeId) && t.clientEnabled g.clientId) = _
  cases t.clientEnabled g.clientId <;> simp

/-- The grants of a client on live nodes. -/
def Tables.reachingGrants (t : Tables) (id : Uuid) : List GrantRow :=
  t.grants.filter fun g => decide (g.clientId = id) && t.nodeLive g.nodeId

theorem findLive_isSome : (t.liveNodes.find? fun n => n.id = id).isSome = t.nodeLive id := by
  rw [Bool.eq_iff_iff, List.find?_isSome, Tables.nodeLive, List.any_eq_true]
  simp only [Tables.liveNodes, List.mem_filter, decide_eq_true_eq]
  constructor
  · rintro ⟨n, ⟨hn, hlive⟩, hid⟩
    exact ⟨n, hn, hid, hlive⟩
  · rintro ⟨n, hn, hid, hlive⟩
    exact ⟨n, ⟨hn, hlive⟩, hid⟩

/-- An exported row's grant carries its row. -/
theorem exportGrant_carries {c : ClientRow} {n : NodeRow} {subnets : NodeRow → List Prefix}
    {domains : NodeRow → List String} (hc : c ∈ t.clients) (hid : c.id = row.clientId)
    (hsub : ∀ r, (subnets r).Perm (t.subnetsOf r.id)) (hrules : RulesRead t rules)
    (hn : (t.liveNodes.find? fun n => n.id = row.nodeId) = some n) :
    Carries t row (exportGrant c.toClient c.id rules (exportRow subnets domains row n)) := by
  have hnid : n.id = row.nodeId := by simpa using List.find?_some hn
  obtain ⟨hn, hlive⟩ := List.mem_filter.mp (List.mem_of_find?_eq_some hn)
  obtain ⟨hactive, haddr⟩ := of_decide_eq_true hlive
  obtain ⟨a, ha⟩ := Option.ne_none_iff_exists'.mp haddr
  refine ⟨⟨c, hc, hid, rfl⟩, ⟨n, hn, hnid, hactive, ?_, hsub n, rfl, rfl, rfl⟩, ?_⟩
  · rw [ha]
    show some a = some (n.address.getD .invalid)
    rw [ha]
    rfl
  · have hkey : (c.id, n.id) = row.key := by rw [hid, hnid]; rfl
    show ((rules.filter fun r => r.key = (c.id, n.id)).map toRule).Perm _
    rw [hkey]
    exact (hrules.filter _).map _

/-- The export has one grant for each of the client's grants on a live node. -/
theorem export_grants (h : ExportOf t id (.ok exp)) : OnePer (Carries t) (t.reachingGrants id) exp.grants := by
  obtain ⟨c, hc, rfl, rows, rules, ⟨subnets, domains, hsub, -, hrows⟩, hrules, rfl⟩ := h
  let item := fun (g : GrantRow) => (t.liveNodes.find? fun n => n.id = g.nodeId).map fun n =>
    exportGrant c.toClient c.id rules (exportRow subnets domains g n)
  have hone : OnePer (Carries t)
      ((t.grants.filter fun g => g.clientId = c.id).filter fun g => t.nodeLive g.nodeId)
      ((t.grants.filter fun g => g.clientId = c.id).filterMap item) := by
    refine OnePer.of_filterMap (fun row _ => ?_) fun row hrow g hg => ?_
    · show _ = (Option.map _ _).isSome
      rw [Option.isSome_map, findLive_isSome]
    · obtain ⟨n, hn, rfl⟩ := Option.map_eq_some_iff.mp hg
      exact exportGrant_carries hc (of_decide_eq_true (List.mem_filter.mp hrow).2).symm hsub hrules hn
  have hitems : (rows.map (exportGrant c.toClient c.id rules)).Perm
      ((t.grants.filter fun g => g.clientId = c.id).filterMap item) := by
    refine (hrows.map _).trans (List.Perm.of_eq ?_)
    rw [Tables.clientGrants, List.map_map, List.map_filterMap]
    refine List.filterMap_congr fun g _ => ?_
    rw [Option.map_map]
    rfl
  have hrowsEq : ((t.grants.filter fun g => g.clientId = c.id).filter fun g => t.nodeLive g.nodeId) =
      t.reachingGrants c.id := by
    rw [List.filter_filter, Tables.reachingGrants]
    exact List.filter_congr fun g _ => Bool.and_comm _ _
  rw [hrowsEq] at hone
  exact hone.congr_items hitems.symm

end Readings

/-- **One reading.** For an enabled client the export's grants are the snapshot's with its address. -/
theorem export_agrees {c : ClientRow} (hc : c ∈ db.clients) (henabled : c.enabled = true)
    (hout : SnapshotOf db.toTables out) (hexp : ExportOf db.toTables c.id (.ok exp)) :
    OnePer Same (out.grants.filter fun g => g.clientAddr = c.address) exp.grants := by
  have hmine : OnePer (Carries db.toTables) (db.shownGrants.filter fun row => row.clientId = c.id)
      (out.grants.filter fun g => g.clientAddr = c.address) :=
    (snapshot_grants hout).filter fun row _ g hg => by
      rw [decide_eq_decide]
      exact hg.clientAddr_iff hc
  -- the client is enabled, so its rows are those the export reads
  have hrows : (db.shownGrants.filter fun row => row.clientId = c.id) = db.reachingGrants c.id := by
    rw [Tables.shownGrants, List.filter_filter, Tables.reachingGrants]
    refine List.filter_congr fun g _ => ?_
    by_cases hg : g.clientId = c.id
    · have he : db.clientEnabled g.clientId = true :=
        List.any_eq_true.mpr ⟨c, hc, by simp [hg, henabled]⟩
      rw [he, Bool.true_and]
    · simp [hg]
  rw [hrows] at hmine
  obtain ⟨l, hl, hS⟩ := (export_grants hexp).join hmine
  refine ⟨l, hl, hS.imp ?_⟩
  rintro g g' ⟨row, -, hcarry, hcarry'⟩
  exact hcarry'.same hcarry

/-! ## Closing -/

/-- The grants that a call closes: those from a client it disables, to a node it rejects or deletes, or of
    a pair it revokes. -/
def Op.closes (db : Db) : Op → Grant → Prop
  | .updateClient id false _, g => ∃ c ∈ db.clients, c.id = id ∧ g.clientAddr = c.address
  | .deleteGrant clientId nodeId, g => (∃ c ∈ db.clients, c.id = clientId ∧ g.clientAddr = c.address) ∧
      ∃ n ∈ db.nodes, n.id = nodeId ∧ n.address = some g.nodeAddr
  | .rejectNode id, g | .deleteNode id, g => ∃ n ∈ db.nodes, n.id = id ∧ n.address = some g.nodeAddr
  | _, _ => False

theorem updateClient_closes {dns : String} {c : ClientRow}
    (h : db'.clients = (db.editClient c.id fun c => { c with enabled := false, dns := dns }).clients)
    (hc : c ∈ db.clients) (haddr : g.clientAddr = c.address) (hcarry : Carries db'.toTables row g) :
    row.clientId = c.id ∧ db'.clientEnabled c.id = false := by
  obtain ⟨c', hc', hid, haddr'⟩ := hcarry.client
  rw [h] at hc'
  obtain ⟨r, hr, hrc⟩ := List.mem_map.mp hc'
  have hraddr : r.address = c'.address := by
    rw [← hrc]
    split <;> rfl
  -- the carried client is the disabled one
  obtain rfl : r = c := client_eq_of_address db.wf hr hc
    (hraddr.trans (haddr'.symm.trans haddr))
  rw [if_pos rfl] at hrc
  refine ⟨by rw [← hid, ← hrc], List.any_eq_false.mpr fun x hx hxe => ?_⟩
  obtain ⟨hxid, hxe⟩ := of_decide_eq_true hxe
  rw [h] at hx
  obtain ⟨y, -, hyx⟩ := List.mem_map.mp hx
  split at hyx
  · rw [← hyx] at hxe
    exact absurd hxe (by simp)
  · rename_i hy
    exact hy (hyx ▸ hxid)

/-- No row carries a grant that the call closed, save where the call disabled the row's client. -/
theorem closed {op : Op} (h : run apply op.body db = .ok ((), db')) (hclose : op.closes db g)
    (hrow : row ∈ db'.grants) (hcarry : Carries db'.toTables row g) :
    db'.clientEnabled row.clientId = false ∧ ∃ dns, op = .updateClient row.clientId false dns := by
  have heff := effect_of_run h
  obtain ⟨t', ht⟩ : ∃ t', db'.toTables = t' := ⟨_, rfl⟩
  rw [ht] at heff
  obtain ⟨n', hn', hnid, hactive, hna', -⟩ := hcarry.node
  cases heff with
  | @updatedClient _ clientId enabled dns =>
    cases enabled with
    | true => exact absurd hclose id
    | false =>
      obtain ⟨c, hc, rfl, haddr⟩ := hclose
      -- the row stays, but its device is disabled
      obtain ⟨hid, hoff⟩ := updateClient_closes (by rw [ht]) hc haddr hcarry
      exact ⟨hid ▸ hoff, dns, by rw [hid]⟩
  | revoked =>
    obtain ⟨⟨c, hc, rfl, haddr⟩, n, hn, rfl, hna⟩ := hclose
    have hclients : db'.clients = db.clients := by rw [ht]; rfl
    have hcid := (hcarry.clientAddr_iff (hclients ▸ hc)).mpr haddr
    rw [ht] at hn' hrow
    obtain rfl := node_of_address db hn' hn hna' hna
    -- the revoked row is gone
    exact absurd (Prod.ext hcid hnid.symm : row.key = (c.id, n'.id))
      (of_decide_eq_true (List.mem_filter.mp hrow).2)
  | rejected =>
    obtain ⟨n, hn, rfl, hna⟩ := hclose
    rw [ht] at hn'
    obtain ⟨r, hr, hrn⟩ := List.mem_map.mp hn'
    have hra : r.address = n'.address := by
      rw [← hrn]
      split <;> rfl
    obtain rfl := node_of_address db hr hn (hra.trans hna') hna
    rw [if_pos rfl] at hrn
    rw [← hrn] at hactive
    -- the node of the row would be rejected
    exact absurd hactive (by simp [reject])
  | deletedNode =>
    obtain ⟨n, hn, rfl, hna⟩ := hclose
    rw [ht] at hn'
    obtain ⟨hn', hne⟩ := List.mem_filter.mp hn'
    exact absurd (congrArg NodeRow.id (node_of_address db hn' hn hna' hna)) (of_decide_eq_true hne)
  | _ => exact absurd hclose id

/-- **Snapshot and export.** In every state the snapshot has exactly one grant for each row of an enabled
    client and a live node, no two alike, and an enabled client's export has the same ones for it. After a
    call that closes a grant, no snapshot shows it, and no export either, save the export of the client
    that the call disabled. -/
theorem snapshot_and_export (db : Db) :
    (∀ out, SnapshotOf db.toTables out →
      db.shownGrants.Nodup ∧ OnePer (Carries db.toTables) db.shownGrants out.grants ∧ out.grants.Nodup ∧
        ∀ c ∈ db.clients, c.enabled = true → ∀ res, ExportOf db.toTables c.id res →
          ∃ exp, res = .ok exp ∧ OnePer Same (out.grants.filter fun g => g.clientAddr = c.address) exp.grants) ∧
    ∀ (op : Op) (db' : Db) (g : Grant), run apply op.body db = .ok ((), db') → op.closes db g →
      (∀ out, SnapshotOf db'.toTables out → g ∉ out.grants) ∧
        ∀ c ∈ db'.clients, (c.enabled = true ∨ ∀ dns, op ≠ .updateClient c.id false dns) →
          ∀ exp, ExportOf db'.toTables c.id (.ok exp) → g ∉ exp.grants := by
  have hshown : db.shownGrants.Nodup := (List.Nodup.of_map _ db.wf.grants_pkey).filter _
  refine ⟨fun out hout => ⟨hshown, snapshot_grants hout, ?_, fun c hc henabled res hres => ?_⟩,
    fun op db' g hrun hclose => ⟨fun out hout hg => ?_, fun c hc hwho exp hexp hg => ?_⟩⟩
  · exact (snapshot_grants hout).nodup hshown fun row hrow row' hrow' g h h' =>
      h.row_unique h' (List.mem_filter.mp hrow).1 (List.mem_filter.mp hrow').1
  · cases res with
    | error e => exact absurd (List.mem_map_of_mem hc) hres.2
    | ok exp => exact ⟨exp, rfl, export_agrees hc henabled hout hres⟩
  · obtain ⟨row, hrow, hcarry⟩ := (snapshot_grants hout).row hg
    obtain ⟨hrow, hshow⟩ := List.mem_filter.mp hrow
    obtain ⟨hoff, -⟩ := closed hrun hclose hrow hcarry
    rw [hoff] at hshow
    exact absurd hshow (by simp)
  · obtain ⟨row, hrow, hcarry⟩ := (export_grants hexp).row hg
    obtain ⟨hrow, hreach⟩ := List.mem_filter.mp hrow
    simp only [Bool.and_eq_true, decide_eq_true_eq] at hreach
    obtain ⟨hoff, dns, he⟩ := closed hrun hclose hrow hcarry
    rcases hwho with henabled | hother
    · rw [Tables.clientEnabled, List.any_eq_false] at hoff
      exact hoff c hc (by simp [hreach.1, henabled])
    · exact hother dns (hreach.1 ▸ he)

/-- A client with a grant, disabled. -/
def disabledRun : List Op :=
  [.createNode 1 "home" "eth0" [⟨.ofBytes 192 168 1 0, 24⟩] ⟨"priv1", "pub1"⟩ "",
    .createClient 2 "phone" "" ⟨"priv2", "pub2"⟩ "", .setGrant 2 1]

/-- **The disabled client's own export** still lists its grants: `GetClientForExport` does not look at
    `enabled`. -/
theorem disabled_export_keeps_grant :
    ¬ ∀ (db db' : Db) (c : ClientRow) (dns : String), c ∈ db.clients →
      run apply (updateClient c.id false dns) db = .ok ((), db') →
      ∀ exp, ExportOf db'.toTables c.id (.ok exp) → ∀ g ∈ exp.grants, g.clientAddr ≠ c.address := by
  intro hclaim
  have hrun : ((runAll apply Op.body (fun _ _ => true) (Db.boot demoHub "") disabledRun).any fun db =>
      db.clients.any fun c => (run apply (updateClient c.id false "") db).toOption.any fun r =>
        match clientExport r.2.toTables c.id with
        | .ok exp => exp.grants.any fun g => g.clientAddr = c.address
        | .error _ => false) = true := by decide +kernel
  obtain ⟨db, -, hrun⟩ := (Option.any_eq_true _ _).mp hrun
  obtain ⟨c, hc, hrun⟩ := List.any_eq_true.mp hrun
  obtain ⟨⟨u, db'⟩, hupdate, hrun⟩ := (Option.any_eq_true _ _).mp hrun
  have hok : run apply (updateClient c.id false "") db = .ok (u, db') := by
    cases hres : run apply (updateClient c.id false "") db with
    | error e => rw [hres] at hupdate; exact absurd hupdate (by simp [Except.toOption])
    | ok r => rw [hres] at hupdate; rw [Option.some.inj hupdate]
  split at hrun
  · rename_i exp hexp
    obtain ⟨g, hg, haddr⟩ := List.any_eq_true.mp hrun
    have hspec := clientExport_spec db'.toTables c.id
    rw [hexp] at hspec
    exact hclaim db db' c "" hc hok exp hspec g hg (of_decide_eq_true haddr)
  · exact absurd hrun (by simp)

end Store
end BeautyAwg
