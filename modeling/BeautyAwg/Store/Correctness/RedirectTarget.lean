import BeautyAwg.Awg.Correctness.ClientDNS
import BeautyAwg.Awg.Correctness.VPNLink
import BeautyAwg.Store.Correctness.AccessControl

/-!
# `Store.Correctness.RedirectTarget`: the server in the file and the target of the redirect

With the resolver off a device's file names the first DNS server among its grants, and the hub redirects the
device's queries by the first rule that matches. Both go through the device's grants, but `GetClientForExport` and
`Snapshot` read them by queries of their own, neither with an ORDER BY: what the one has first, the other need not.
The two servers are one in every order just when all nodes granted to the device that have a server have the same
(`redirect_agrees_iff`).

## Contents
- **Agreement.** `DNSAgrees`.
- **The servers of a device.** `grantedServers`; `servers_exported`, `servers_shown`.
- **Any of them first.** `exists_export`, `exists_snapshot`, `any_two`.
- **When they agree.** `redirect_agrees_iff`, `two_servers_disagree`.
-/

namespace BeautyAwg
namespace Store

open Netip Nft Awg Txn

variable {db : Db} {c : ClientRow} {out : Snapshot} {exp : ClientExport} {dns : String}

/-! ## Agreement -/

/-- In whatever order the rows come: the file of the client has a line for a DNS server, and the hub redirects each of
    the client's queries to that server. -/
def DNSAgrees (db : Db) (c : ClientRow) : Prop :=
  ∀ out exp, SnapshotOf db.toTables out → ExportOf db.toTables c.id (.ok exp) → ∀ p, DNSQuery c.toClient p →
    ∃ dns, printedDNS exp.hub exp.client exp.grants = some dns ∧
      ConfNames (renderClient exp.hub exp.client exp.grants) (some dns) (paramNums exp.hub.params) ∧
      (preroutingChain out.hub out.grants).statement p = some (.dnat dns)

/-! ## The servers of a device -/

/-- The DNS servers of the live nodes granted to the client, once for each grant. -/
def Tables.grantedServers (t : Tables) (id : Uuid) : List String :=
  ((t.clientGrants id).map fun (_, n) => n.dns).filter fun dns => dns ≠ ""

theorem mem_clientGrants {t : Tables} {id : Uuid} {g : GrantRow} {n : NodeRow} : (g, n) ∈ t.clientGrants id ↔
    g ∈ t.grants ∧ g.clientId = id ∧ (t.liveNodes.find? fun n => n.id = g.nodeId) = some n := by
  unfold Tables.clientGrants
  rw [List.mem_filterMap]
  constructor
  · rintro ⟨g', hg', he⟩
    obtain ⟨n', hn', hpair⟩ := Option.map_eq_some_iff.mp he
    obtain ⟨rfl, rfl⟩ := Prod.mk.inj hpair
    obtain ⟨hmem, hid⟩ := List.mem_filter.mp hg'
    exact ⟨hmem, of_decide_eq_true hid, hn'⟩
  · rintro ⟨hmem, hid, hn⟩
    exact ⟨g, List.mem_filter.mpr ⟨hmem, decide_eq_true hid⟩, by rw [hn]; rfl⟩

theorem mem_grantedServers {t : Tables} {id : Uuid} : dns ∈ t.grantedServers id ↔
    dns ≠ "" ∧ ∃ g n, (g, n) ∈ t.clientGrants id ∧ n.dns = dns := by
  unfold Tables.grantedServers
  rw [List.mem_filter, List.mem_map]
  simp only [decide_eq_true_eq, Prod.exists]
  tauto

/-- The first of some servers is one of them. -/
theorem firstDNS_mem {granted : List Grant} (h : firstDNS granted = some dns) :
    dns ≠ "" ∧ dns ∈ granted.map Grant.nodeDNS :=
  ⟨by simpa using List.find?_some h, List.mem_of_find?_eq_some h⟩

theorem firstDNS_of_unique {granted : List Grant} (hmem : dns ∈ granted.map Grant.nodeDNS) (hne : dns ≠ "")
    (hunique : ∀ d ∈ granted.map Grant.nodeDNS, d ≠ "" → d = dns) : firstDNS granted = some dns := by
  cases hfirst : firstDNS granted with
  | some d =>
    obtain ⟨hd, hdmem⟩ := firstDNS_mem hfirst
    rw [hunique d hdmem hd]
  | none => exact absurd (List.find?_eq_none.mp hfirst dns hmem) (by simpa using hne)

theorem servers_exported (h : ExportOf db.toTables c.id (.ok exp)) :
    (exp.grants.map Grant.nodeDNS).Perm ((db.clientGrants c.id).map fun (_, n) => n.dns) := by
  obtain ⟨c', -, -, rows, rules, ⟨subnets, domains, -, -, hrows⟩, -, rfl⟩ := h
  have hexported := hrows.map ExportRow.dns
  rw [List.map_map] at hexported ⊢
  exact hexported

/-- An enabled client's grants in the snapshot have the same servers. -/
theorem servers_shown (hc : c ∈ db.clients) (henabled : c.enabled = true) (h : SnapshotOf db.toTables out) :
    ((out.grants.filter fun g => g.clientAddr = c.address).map Grant.nodeDNS).Perm
      ((db.clientGrants c.id).map fun (_, n) => n.dns) := by
  obtain ⟨exp, hexp⟩ := exists_exportOf (List.mem_map_of_mem hc)
  have hsame := (export_agrees hc henabled h hexp).map_perm fun _ _ hsame => hsame.nodeDNS
  exact hsame.trans (servers_exported hexp)

/-- The first server of a reading is one of the client's. -/
theorem firstDNS_granted {granted : List Grant} {id : Uuid}
    (hservers : (granted.map Grant.nodeDNS).Perm ((db.clientGrants id).map fun (_, n) => n.dns))
    (h : firstDNS granted = some dns) : dns ∈ db.grantedServers id := by
  obtain ⟨hne, hmem⟩ := firstDNS_mem h
  exact List.mem_filter.mpr ⟨hservers.mem_iff.mp hmem, decide_eq_true hne⟩

/-- The only server of a client is the first of every reading. -/
theorem firstDNS_only {granted : List Grant} {id : Uuid}
    (hservers : (granted.map Grant.nodeDNS).Perm ((db.clientGrants id).map fun (_, n) => n.dns))
    (hmem : dns ∈ db.grantedServers id) (hunique : ∀ d ∈ db.grantedServers id, d = dns) :
    firstDNS granted = some dns := by
  obtain ⟨hlisted, hne⟩ := List.mem_filter.mp hmem
  refine firstDNS_of_unique (hservers.mem_iff.mpr hlisted) (of_decide_eq_true hne) fun d hd hdne => ?_
  exact hunique d (List.mem_filter.mpr ⟨hservers.mem_iff.mp hd, decide_eq_true hdne⟩)

/-! ## Any of them first -/

/-- Every server of the client is the first of some export. -/
theorem exists_export (hc : c ∈ db.clients) (hdns : dns ∈ db.grantedServers c.id) :
    ∃ exp, ExportOf db.toTables c.id (.ok exp) ∧ firstDNS exp.grants = some dns := by
  obtain ⟨hne, g, n, hmem, rfl⟩ := mem_grantedServers.mp hdns
  let row := fun (pair : GrantRow × NodeRow) =>
    exportRow (fun n => db.subnetsOf n.id) (fun n => db.domainsOf n.id) pair.1 pair.2
  -- the grants query returns the row of this server before the others
  have hread : ExportRead db.toTables c.id (((g, n) :: (db.clientGrants c.id).erase (g, n)).map row) :=
    ⟨_, _, fun _ => List.Perm.refl _, fun _ => List.Perm.refl _, (List.perm_cons_erase hmem).symm.map row⟩
  refine ⟨_, ⟨c, hc, rfl, _, _, hread, List.Perm.refl _, rfl⟩, ?_⟩
  show firstDNS (exportGrant c.toClient c.id db.grantRules (row (g, n)) :: _) = some n.dns
  exact firstDNS_cons hne

/-- Every server of an enabled client is the first of its own in some snapshot. -/
theorem exists_snapshot (hc : c ∈ db.clients) (henabled : c.enabled = true) (hdns : dns ∈ db.grantedServers c.id) :
    ∃ out, SnapshotOf db.toTables out ∧
      firstDNS (out.grants.filter fun g => g.clientAddr = c.address) = some dns := by
  obtain ⟨hne, row, n, hmem, rfl⟩ := mem_grantedServers.mp hdns
  obtain ⟨hrow, hid, hfind⟩ := mem_clientGrants.mp hmem
  obtain ⟨nodes, clients, rules, grants, links, hnodes, hclients, hrules, -, hlinks, -⟩ := snapshot_spec db.toTables
  have hon : db.clientEnabled row.clientId = true :=
    List.any_eq_true.mpr ⟨c, hc, by simp [hid, henabled]⟩
  -- the grants query returns this row before the others
  have hread : GrantsRead db.toTables (row :: db.enabledGrants.erase row) :=
    (List.perm_cons_erase (List.mem_filter.mpr ⟨hrow, hon⟩)).symm
  refine ⟨_, ⟨_, _, _, _, _, hnodes, hclients, hrules, hread, hlinks, rfl⟩, ?_⟩
  have hjoined : (joinGrant nodes clients rules row).isSome = true := by
    rw [joinGrant_isSome, hclients.lookup_isSome, hnodes.lookup_isSome, hon, ← findLive_isSome, hfind]
    rfl
  obtain ⟨g, hg⟩ := Option.isSome_iff_exists.mp hjoined
  have hcarry := joinGrant_carries hnodes hclients hrules hg
  have hown : g.clientAddr = c.address := (hcarry.clientAddr_iff hc).mp hid
  have hnamed : g.nodeDNS = n.dns := by
    obtain ⟨m, hm, hmid, -, -, -, hmdns, -⟩ := hcarry.node
    have hnid : n.id = row.nodeId := by simpa using List.find?_some hfind
    have hn : n ∈ db.nodes := (List.mem_filter.mp (List.mem_of_find?_eq_some hfind)).1
    rw [hmdns, node_eq_of_id db.wf hm hn (hmid.trans hnid.symm)]
  show firstDNS (((row :: db.enabledGrants.erase row).filterMap (joinGrant nodes clients rules)).filter _) = some n.dns
  rw [List.filterMap_cons_some hg, List.filter_cons_of_pos (by simpa using hown), ← hnamed]
  exact firstDNS_cons (hnamed ▸ hne)

/-! ## When they agree -/

/-- What the file names and where queries go, for a client that leaves the server to its grants. -/
theorem printedDNS_first (hdns : c.dns = "") (hresolver : db.hub.resolver = false)
    (h : ExportOf db.toTables c.id (.ok exp)) (hc : c ∈ db.clients) (hfirst : firstDNS exp.grants = some dns) :
    printedDNS exp.hub exp.client exp.grants = some dns := by
  obtain ⟨c', hc', hid, rows, rules, -, -, rfl⟩ := h
  obtain rfl := client_eq_of_id db.wf hc' hc hid
  have hnamed : clientDNS db.hub c'.toClient (rows.map (exportGrant c'.toClient c'.id rules)) = dns := by
    rw [clientDNS_eq hresolver hdns, hfirst, Option.getD_some]
  unfold printedDNS
  rw [hnamed, if_neg (firstDNS_mem hfirst).1]

theorem redirected_first (hresolver : db.hub.resolver = false) (h : SnapshotOf db.toTables out) {p : Packet}
    (hp : DNSQuery c.toClient p) : (preroutingChain out.hub out.grants).statement p =
      (firstDNS (out.grants.filter fun g => g.clientAddr = c.address)).map .dnat :=
  prerouting_finds (h.hub ▸ hresolver) hp

/-- Of any two servers of a client, the one can be in its file while its queries go to the other. -/
theorem any_two (hc : c ∈ db.clients) (henabled : c.enabled = true) (hdns : c.dns = "")
    (hresolver : db.hub.resolver = false) {dns' : String} (h : dns ∈ db.grantedServers c.id)
    (h' : dns' ∈ db.grantedServers c.id) :
    ∃ out exp, SnapshotOf db.toTables out ∧ ExportOf db.toTables c.id (.ok exp) ∧
      printedDNS exp.hub exp.client exp.grants = some dns ∧
      ∀ p, DNSQuery c.toClient p → (preroutingChain out.hub out.grants).statement p = some (.dnat dns') := by
  obtain ⟨exp, hexp, hfile⟩ := exists_export hc h
  obtain ⟨out, hout, hrules⟩ := exists_snapshot hc henabled h'
  refine ⟨out, exp, hout, hexp, printedDNS_first hdns hresolver hexp hc hfile, fun p hp => ?_⟩
  rw [redirected_first hresolver hout hp, hrules]
  rfl

/-- A query of a client with an IPv4 address. -/
theorem exists_query (h : c.address.is4 = true) : ∃ p, DNSQuery c.toClient p := by
  obtain ⟨x, hx⟩ := Addr.is4_iff.mp h
  exact ⟨queryTo demoHub x 0 .udp, hx, .inl rfl, rfl, rfl⟩

theorem unique_of_agrees (hc : c ∈ db.clients) (henabled : c.enabled = true) (hdns : c.dns = "")
    (hresolver : db.hub.resolver = false) (h : DNSAgrees db c) (h4 : c.address.is4 = true) {dns' : String}
    (hmem : dns ∈ db.grantedServers c.id) (hmem' : dns' ∈ db.grantedServers c.id) : dns = dns' := by
  obtain ⟨p, hp⟩ := exists_query h4
  obtain ⟨out, exp, hout, hexp, hfile, hrules⟩ := any_two hc henabled hdns hresolver hmem hmem'
  obtain ⟨d, hprinted, -, htarget⟩ := h out exp hout hexp p hp
  rw [hfile] at hprinted
  rw [hrules p hp] at htarget
  rw [Option.some.inj hprinted]
  exact (Stmt.dnat.inj (Option.some.inj htarget)).symm

/-- **When the file names the target of the redirect.** For an enabled client that leaves the server to its grants,
    the resolver off: the two are one in every order of the rows exactly when the client has no IPv4 address to send
    a query from, or the live nodes granted to it have one DNS server among them. -/
theorem redirect_agrees_iff (db : Db) (c : ClientRow) (hc : c ∈ db.clients) (henabled : c.enabled = true)
    (hdns : c.dns = "") (hresolver : db.hub.resolver = false) :
    DNSAgrees db c ↔ (c.address.is4 = true → ∃! dns, dns ∈ db.grantedServers c.id) := by
  constructor
  · intro h h4
    -- some server is there: a query is redirected in whichever snapshot
    obtain ⟨p, hp⟩ := exists_query h4
    obtain ⟨exp, hexp⟩ := exists_exportOf (List.mem_map_of_mem hc)
    have hout := snapshot_spec db.toTables
    obtain ⟨dns, -, -, htarget⟩ := h _ exp hout hexp p hp
    rw [redirected_first hresolver hout hp] at htarget
    obtain ⟨d, hfirst, -⟩ := Option.map_eq_some_iff.mp htarget
    have hmem := firstDNS_granted (servers_shown hc henabled hout) hfirst
    exact ⟨d, hmem, fun d' hd' => unique_of_agrees hc henabled hdns hresolver h h4 hd' hmem⟩
  · intro h out exp hout hexp p hp
    obtain ⟨dns, hmem, hunique⟩ := h (Addr.is4_iff.mpr ⟨p.src, hp.src⟩)
    have hfile := firstDNS_only (servers_exported hexp) hmem hunique
    have hrules := firstDNS_only (servers_shown hc henabled hout) hmem hunique
    have hprinted := printedDNS_first hdns hresolver hexp hc hfile
    refine ⟨dns, hprinted, hprinted ▸ renderClient_names exp.hub exp.client exp.grants, ?_⟩
    rw [redirected_first hresolver hout hp, hrules]
    rfl

/-- A device with grants of two home servers, the first with a DNS server, the second with what is given. -/
def twoHomesRun (second : List Op) : List Op :=
  [.createNode 1 "home" "eth0" [⟨.ofBytes 192 168 1 0, 24⟩] ⟨"priv1", "pub1"⟩ "",
    .createNode 2 "office" "eth0" [⟨.ofBytes 192 168 2 0, 24⟩] ⟨"priv2", "pub2"⟩ "",
    .setNodeDNS 1 "192.168.1.1"] ++ second ++
  [.createClient 3 "phone" "" ⟨"priv3", "pub3"⟩ "", .setGrant 3 1, .setGrant 3 2]

theorem twoHomes_device {second : List Op} {servers : List String}
    (hcheck : ((runAll apply Op.body (fun _ _ => true) (Db.boot demoHub "") (twoHomesRun second)).any fun db =>
      db.clients.any fun c => (c.enabled && c.dns = "") && (!db.hub.resolver && c.address.is4) &&
        db.grantedServers c.id = servers) = true) :
    ∃ db c, runAll apply Op.body (fun _ _ => true) (Db.boot demoHub "") (twoHomesRun second) = some db ∧
      c ∈ db.clients ∧ c.enabled = true ∧ c.dns = "" ∧ db.hub.resolver = false ∧ c.address.is4 = true ∧
      db.grantedServers c.id = servers := by
  obtain ⟨db, hdb, hcheck⟩ := (Option.any_eq_true _ _).mp hcheck
  obtain ⟨c, hc, hcheck⟩ := List.any_eq_true.mp hcheck
  simp only [Bool.and_eq_true, decide_eq_true_eq, Bool.not_eq_true'] at hcheck
  obtain ⟨⟨⟨henabled, hdns⟩, hresolver, h4⟩, hservers⟩ := hcheck
  exact ⟨db, c, hdb, hc, henabled, hdns, hresolver, h4, hservers⟩

/-- Only one of the two has a server: the file names it, and queries go there. -/
theorem redirect_agrees_home : ∃ db c, runAll apply Op.body (fun _ _ => true) (Db.boot demoHub "") (twoHomesRun []) =
    some db ∧ c ∈ db.clients ∧ c.address.is4 = true ∧ DNSAgrees db c := by
  obtain ⟨db, c, hdb, hc, henabled, hdns, hresolver, h4, hservers⟩ :=
    @twoHomes_device [] ["192.168.1.1"] (by decide +kernel)
  refine ⟨db, c, hdb, hc, h4, (redirect_agrees_iff db c hc henabled hdns hresolver).mpr fun _ => ?_⟩
  rw [hservers]
  exact ⟨_, List.mem_singleton.mpr rfl, fun d hd => List.mem_singleton.mp hd⟩

/-- **The defect.** Both home servers have a DNS server: one is in the file, and the queries go to the other. -/
theorem two_servers_disagree : ∃ db c out exp,
    runAll apply Op.body (fun _ _ => true) (Db.boot demoHub "") (twoHomesRun [.setNodeDNS 2 "192.168.2.1"]) = some db ∧
    c ∈ db.clients ∧ c.enabled = true ∧ c.dns = "" ∧ db.hub.resolver = false ∧
    SnapshotOf db.toTables out ∧ ExportOf db.toTables c.id (.ok exp) ∧
    printedDNS exp.hub exp.client exp.grants = some "192.168.1.1" ∧
    (∀ p, DNSQuery c.toClient p → (preroutingChain out.hub out.grants).statement p = some (.dnat "192.168.2.1")) ∧
    ¬ DNSAgrees db c := by
  obtain ⟨db, c, hdb, hc, henabled, hdns, hresolver, h4, hservers⟩ :=
    @twoHomes_device [.setNodeDNS 2 "192.168.2.1"] ["192.168.1.1", "192.168.2.1"] (by decide +kernel)
  have hfirst : "192.168.1.1" ∈ db.grantedServers c.id := by simp [hservers]
  have hsecond : "192.168.2.1" ∈ db.grantedServers c.id := by simp [hservers]
  obtain ⟨out, exp, hout, hexp, hfile, hrules⟩ := any_two hc henabled hdns hresolver hfirst hsecond
  refine ⟨db, c, out, exp, hdb, hc, henabled, hdns, hresolver, hout, hexp, hfile, hrules, fun h => ?_⟩
  exact absurd (unique_of_agrees hc henabled hdns hresolver h h4 hfirst hsecond) (by decide)

end Store
end BeautyAwg
