import BeautyAwg.Store.Correctness.AccessControl
import BeautyAwg.Store.Correctness.Cryptokey

/-!
# `Store.Correctness.EndToEnd`: what the ruleset permits the tunnels can carry

A packet between two sites passes five printed artefacts: the `AllowedIPs` of the source's file, those of the
hub's peer for the source, the forward chain, the hub's routing table, and the `AllowedIPs` of the
destination's file; the reply passes them the other way. When sites have addresses of their own
(`Routable`), everything a link or a grant permits gets through all of them.

## Contents
- **The state.** `Routable`, and the one owner of an address.
- **The hops.** `Tunnelled`; the peers of a snapshot's nodes and clients.
- **The theorem.** `links_carry`, `grants_carry`, `acl_permits_tunnels_carry`.
-/

namespace BeautyAwg
namespace Store

open Netip Nft Awg Txn NodeAgent

variable {db : Db} {t : Tables} {out : Snapshot} {exp : ClientExport} {id : Uuid}

/-! ## The state -/

/-- The node is active and not the hub's. -/
def NodeRow.site (n : NodeRow) : Prop := n.status = .active ∧ n.isHub = false

/-- Sites have tunnel addresses in the pool and LANs of their own outside it, links join sites with LANs, and
    access rules stay in the LANs of the node they are about. -/
structure Routable (t : Tables) : Prop where
  lans_apart : ∀ n ∈ t.nodes, ∀ m ∈ t.nodes, n.site → m.site → n.id ≠ m.id →
    ∀ s ∈ t.subnetsOf n.id, ∀ s' ∈ t.subnetsOf m.id, s.overlaps s' = false
  lans_outside : ∀ n ∈ t.nodes, n.site → ∀ s ∈ t.subnetsOf n.id, s.overlaps t.hub.poolCIDR = false
  nodes_inside : ∀ n ∈ t.nodes, n.site → ∃ a, n.address = some a ∧ t.hub.poolCIDR.contains a = true
  clients_inside : ∀ c ∈ t.clients, c.enabled = true → t.hub.poolCIDR.contains c.address = true
  addresses_apart : ∀ n ∈ t.nodes, n.site → ∀ c ∈ t.clients, c.enabled = true → n.address ≠ some c.address
  links_live : LinksLive t
  rules_inside : ∀ r ∈ t.grantRules, ∀ a, r.dest.contains a = true →
    ∃ s ∈ t.subnetsOf r.nodeId, s.contains a = true

section Owners

variable {n : NodeRow} {c : ClientRow} {x : Route} {y : BitVec 32}

/-- What a route that contains an IPv4 address is. -/
theorem route_cases (hx : x ∈ t.routes) (hy : x.dest.contains (.v4 y) = true) :
    (∃ n ∈ t.nodes, n.site ∧ x.owner = .inl n.id ∧
      (n.address = some (.v4 y) ∨ ∃ s ∈ t.subnetsOf n.id, s.contains (.v4 y) = true)) ∨
    ∃ c ∈ t.clients, c.enabled = true ∧ x.owner = .inr c.id ∧ c.address = .v4 y := by
  rcases mem_routes.mp hx with ⟨n, hn, hpeer, hxn⟩ | ⟨c, hc, henabled, rfl⟩
  · obtain ⟨hactive, hsome, hhub⟩ := of_decide_eq_true hpeer
    refine Or.inl ⟨n, hn, ⟨hactive, hhub⟩, ?_⟩
    rcases List.mem_cons.mp hxn with rfl | hxn
    · obtain ⟨a, ha⟩ := Option.ne_none_iff_exists'.mp hsome
      simp only [hostRoute, ha, Option.getD_some] at hy
      exact ⟨rfl, Or.inl (ha.trans (congrArg some (host_contains.mp hy)))⟩
    · obtain ⟨s, hs, rfl⟩ := List.mem_map.mp hxn
      exact ⟨rfl, Or.inr ⟨s, hs, hy⟩⟩
  · exact Or.inr ⟨c, hc, henabled, rfl, host_contains.mp hy⟩

namespace Routable

variable (h : Routable db.toTables)

include h

/-- No LAN of a site has an address of the pool. -/
theorem lan_outside (hn : n ∈ db.nodes) (hsite : n.site) {s : Prefix} (hs : s ∈ db.subnetsOf n.id) {a : Addr}
    (ha : s.contains a = true) : db.hub.poolCIDR.contains a = false := by
  by_contra hin
  rw [Bool.not_eq_false] at hin
  exact absurd ((overlaps_of_contains ha hin).symm.trans (h.lans_outside n hn hsite s hs)) (by simp)

/-- A site's address is one of the pool. -/
theorem node_inside (hn : n ∈ db.nodes) (hsite : n.site) {a : Addr} (ha : n.address = some a) :
    db.hub.poolCIDR.contains a = true := by
  obtain ⟨a', ha', hin⟩ := h.nodes_inside n hn hsite
  rwa [Option.some.inj (ha.symm.trans ha')]

/-- An address of a site's LAN has one owner. -/
theorem lan_owner (hn : n ∈ db.nodes) (hsite : n.site) {s : Prefix} (hs : s ∈ db.subnetsOf n.id)
    (hsy : s.contains (.v4 y) = true) (hx : x ∈ db.routes) (hy : x.dest.contains (.v4 y) = true) :
    x.owner = .inl n.id := by
  have hout := h.lan_outside hn hsite hs hsy
  rcases route_cases hx hy with ⟨m, hm, hmsite, howner, haddr | ⟨s', hs', hs'y⟩⟩ | ⟨c, hc, henabled, -, haddr⟩
  · exact absurd ((h.node_inside hm hmsite haddr).symm.trans hout) (by simp)
  · rw [howner]
    by_contra hne
    have hids : n.id ≠ m.id := fun he => hne (congrArg Sum.inl he.symm)
    exact absurd ((overlaps_of_contains hsy hs'y).symm.trans
      (h.lans_apart n hn m hm hsite hmsite hids s hs s' hs')) (by simp)
  · have hin := h.clients_inside c hc henabled
    rw [haddr] at hin
    exact absurd (hin.symm.trans hout) (by simp)

/-- A site's tunnel address has one owner. -/
theorem node_owner (hn : n ∈ db.nodes) (hsite : n.site) (ha : n.address = some (.v4 y)) (hx : x ∈ db.routes)
    (hy : x.dest.contains (.v4 y) = true) : x.owner = .inl n.id := by
  rcases route_cases hx hy with ⟨m, hm, hmsite, howner, haddr | ⟨s, hs, hsy⟩⟩ | ⟨c, hc, henabled, -, haddr⟩
  · rw [howner, node_of_address db hm hn haddr ha]
  · exact absurd ((h.node_inside hn hsite ha).symm.trans (h.lan_outside hm hmsite hs hsy)) (by simp)
  · exact absurd (ha.trans (congrArg some haddr.symm)) (h.addresses_apart n hn hsite c hc henabled)

/-- A client's tunnel address has one owner. -/
theorem client_owner (hc : c ∈ db.clients) (henabled : c.enabled = true) (ha : c.address = .v4 y)
    (hx : x ∈ db.routes) (hy : x.dest.contains (.v4 y) = true) : x.owner = .inr c.id := by
  rcases route_cases hx hy with ⟨m, hm, hmsite, howner, haddr | ⟨s, hs, hsy⟩⟩ | ⟨d, hd, -, howner, haddr⟩
  · exact absurd (haddr.trans (congrArg some ha.symm)) (h.addresses_apart m hm hmsite c hc henabled)
  · have hin := h.clients_inside c hc henabled
    rw [ha] at hin
    exact absurd (hin.symm.trans (h.lan_outside hm hmsite hs hsy)) (by simp)
  · rw [howner, client_eq_of_address db.wf hd hc (haddr.trans ha.symm)]

end Routable

end Owners

/-! ## The hops -/

/-- A packet from `a` to `b` is sent into the tunnel by the source's file, taken by the hub from the source's
    peer, routed to the destination's peer, and taken there by the destination's file. -/
structure Tunnelled (peers : List HubPeer) (srcFile dstFile : List String) (src dst : HubPeer) (a b : Addr) :
    Prop where
  sent : coveredBy srcFile b = true
  taken : src.owns a
  routed : hubRoute peers b = some dst
  received : coveredBy dstFile a = true

/-- The listed node with this id. -/
def ListedNode (t : Tables) (out : Snapshot) (id : Uuid) (n : Node) : Prop :=
  n ∈ out.nodes ∧ ∃ r ∈ t.liveNodes, r.id = id ∧ r.address = some n.address ∧
    n.subnets.Perm (t.subnetsOf id)

/-- Packets of a link pass every hop, from the source's LANs and the source itself to the destination's
    LANs, and so do the replies. The files' linked LANs are as `nodeReachSubnets` returns them. -/
def LinkCarried (t : Tables) (out : Snapshot) (l : LinkRow) : Prop :=
  ∃ src dst, ListedNode t out l.src src ∧ ListedNode t out l.dst dst ∧
    ∀ reachSrc reachDst : List Prefix, reachSrc.Perm (reachSubnets t l.src) →
      reachDst.Perm (reachSubnets t l.dst) → ∀ a b : BitVec 32,
      (src.address = .v4 a ∨ ∃ s ∈ src.subnets, s.contains (.v4 a) = true) →
      (∃ s ∈ dst.subnets, s.contains (.v4 b) = true) →
      Tunnelled (hubPeers out.nodes out.clients) (nodeAllowedIPs out.hub reachSrc)
        (nodeAllowedIPs out.hub reachDst) src.peer dst.peer (.v4 a) (.v4 b) ∧
      Tunnelled (hubPeers out.nodes out.clients) (nodeAllowedIPs out.hub reachDst)
        (nodeAllowedIPs out.hub reachSrc) dst.peer src.peer (.v4 b) (.v4 a) ∧
      ∀ p : Packet, p.src = a → p.dst = b →
        (forwardChain out.hub out.nodes out.grants out.links).accepts p = true

/-- Packets of a grant of the node `id` pass every hop, from the device to the grant's destinations for some
    protocol and port, and so do the replies. -/
def GrantCarried (t : Tables) (out : Snapshot) (exp : ClientExport) (c : ClientRow) (row : GrantRow)
    (id : Uuid) : Prop :=
  ∃ g ∈ exp.grants, Carries t row g ∧ ∃ m, ListedNode t out id m ∧
    ∀ reach : List Prefix, reach.Perm (reachSubnets t id) → ∀ a b : BitVec 32,
      c.address = .v4 a → g.reaches (.v4 b) →
      Tunnelled (hubPeers out.nodes out.clients) (clientAllowedIPs exp.hub exp.grants)
        (nodeAllowedIPs out.hub reach) c.toClient.peer m.peer (.v4 a) (.v4 b) ∧
      Tunnelled (hubPeers out.nodes out.clients) (nodeAllowedIPs out.hub reach)
        (clientAllowedIPs exp.hub exp.grants) m.peer c.toClient.peer (.v4 b) (.v4 a) ∧
      ∀ oif, ∃ proto dport, (forwardChain out.hub out.nodes out.grants out.links).accepts
        ⟨a, b, oif, proto, dport, .new, false, 0⟩ = true

/-- The peer is the only one to get what is sent to an address. -/
theorem hubRoute_owner {nodes : List (Uuid × Node)} {clients : List (Uuid × Client)}
    (hnodes : NodesRead db.toTables nodes) (hclients : ClientsRead db.toTables clients) {o : Uuid ⊕ Uuid}
    {p : HubPeer} (hp : (o, p) ∈ ownedPeers nodes clients) {a : Addr} (ha : p.owns a)
    (honly : ∀ x ∈ db.routes, x.dest.contains a = true → x.owner = o) :
    hubRoute (hubPeers (nodes.map Prod.snd) (clients.map Prod.snd)) a = some p := by
  rw [ownedPeers_peers]
  refine hubRoute_eq (List.mem_map_of_mem hp) ha fun p' hp' ha' => ?_
  obtain ⟨⟨o', p'⟩, hmem, rfl⟩ := List.mem_map.mp hp'
  obtain ⟨x, hx, rfl, hxa⟩ := ownedPeers_owns hnodes hclients hmem ha'
  obtain rfl := honly x hx hxa
  exact congrArg Prod.snd (List.inj_on_of_nodup_map (ownedPeers_nodup db.wf hnodes hclients) hmem hp rfl)

section Snapshot

variable {n : NodeRow} {m : Node} {c : ClientRow} {y : BitVec 32}

/-- A site is listed, and its peer gets what is sent to its LANs and to its tunnel address. -/
theorem site_listed (h : Routable db.toTables) (hout : SnapshotOf db.toTables out) (hn : n ∈ db.nodes)
    (hsite : n.site) : ∃ m, ListedNode db.toTables out n.id m ∧
      ∀ y : BitVec 32, (m.address = .v4 y ∨ ∃ s ∈ m.subnets, s.contains (.v4 y) = true) →
        m.peer.owns (.v4 y) ∧ hubRoute (hubPeers out.nodes out.clients) (.v4 y) = some m.peer := by
  obtain ⟨nodes, clients, rules, grants, links, hnodes, hclients, -, -, -, rfl⟩ := hout
  obtain ⟨a, ha, -⟩ := h.nodes_inside n hn hsite
  have hlive : n ∈ db.liveNodes := List.mem_filter.mpr ⟨hn, decide_eq_true ⟨hsite.1, by simp [ha]⟩⟩
  obtain ⟨m, hm, hperm, he⟩ := hnodes.listed hlive
  have haddr : m.address = a := by rw [he, NodeRow.toNode, ha]; rfl
  have hhub : m.isHub = false := by rw [he]; exact hsite.2
  have hpeer : (Sum.inl n.id, m.peer) ∈ ownedPeers nodes clients :=
    List.mem_append_left _ (List.mem_map.mpr ⟨(n.id, m), List.mem_filter.mpr ⟨hm, by simp [hhub]⟩, rfl⟩)
  refine ⟨m, ⟨List.mem_map.mpr ⟨_, hm, rfl⟩, n, hlive, rfl, haddr ▸ ha, hperm⟩, fun y hy => ?_⟩
  have howns : m.peer.owns (.v4 y) := Node.owns_iff.mpr (hy.imp_left fun he => host_contains.mpr he)
  refine ⟨howns, hubRoute_owner hnodes hclients hpeer howns fun x hx hxy => ?_⟩
  rcases hy with hy | ⟨s, hs, hsy⟩
  · exact h.node_owner hn hsite (ha.trans (congrArg some (haddr.symm.trans hy))) hx hxy
  · exact h.lan_owner hn hsite (hperm.mem_iff.mp hs) hsy hx hxy

/-- An enabled client is listed, and its peer gets what is sent to its tunnel address. -/
theorem client_routed (h : Routable db.toTables) (hout : SnapshotOf db.toTables out) (hc : c ∈ db.clients)
    (henabled : c.enabled = true) : c.toClient ∈ out.clients ∧
      ∀ y : BitVec 32, c.address = .v4 y → c.toClient.peer.owns (.v4 y) ∧
        hubRoute (hubPeers out.nodes out.clients) (.v4 y) = some c.toClient.peer := by
  obtain ⟨nodes, clients, rules, grants, links, hnodes, hclients, -, -, -, rfl⟩ := hout
  have hmem : (c.id, c.toClient) ∈ clients := hclients.2.mem_iff.mpr
    (List.mem_map.mpr ⟨c, List.mem_filter.mpr ⟨hc, henabled⟩, rfl⟩)
  have hpeer : (Sum.inr c.id, c.toClient.peer) ∈ ownedPeers nodes clients :=
    List.mem_append_right _ (List.mem_map.mpr ⟨_, hmem, rfl⟩)
  refine ⟨List.mem_map.mpr ⟨_, hmem, rfl⟩, fun y hy => ?_⟩
  have howns : c.toClient.peer.owns (.v4 y) := Client.owns_iff.mpr (host_contains.mpr hy)
  exact ⟨howns, hubRoute_owner hnodes hclients hpeer howns fun x hx hxy => h.client_owner hc henabled hy hx hxy⟩

/-- A site's file covers the pool and the LANs of the sites it has a link with. -/
theorem siteFile_covers {reach : List Prefix} (hreach : reach.Perm (reachSubnets db.toTables id)) {a : Addr} :
    coveredBy (nodeAllowedIPs db.hub reach) a = true ↔ db.hub.poolCIDR.contains a = true ∨
      ∃ l ∈ db.links, (l.src = id ∨ l.dst = id) ∧
        ∃ s ∈ db.subnetsOf (if l.src = id then l.dst else l.src), s.contains a = true := by
  rw [nodeAllowedIPs_covers]
  refine or_congr_right ?_
  simp only [hreach.mem_iff, mem_reachSubnets]
  constructor
  · rintro ⟨s, ⟨l, hl, hend, hs⟩, hc⟩
    exact ⟨l, hl, hend, s, hs, hc⟩
  · rintro ⟨l, hl, hend, s, hs, hc⟩
    exact ⟨s, ⟨l, hl, hend, hs⟩, hc⟩

end Snapshot

/-! ## The theorem -/

section Paths

variable {n : NodeRow} {c : ClientRow} {l : LinkRow} {row : GrantRow}

/-- A row of the links table is in the snapshot, with the addresses of its ends. -/
theorem link_listed (h : Routable db.toTables) (hout : SnapshotOf db.toTables out) (hl : l ∈ db.links) :
    ∃ k ∈ out.links, ∃ r ∈ db.liveNodes, r.id = l.src ∧ k.srcAddr = r.address.getD .invalid ∧
      k.srcSubnets.Perm (db.subnetsOf l.src) ∧ k.dstSubnets.Perm (db.subnetsOf l.dst) := by
  obtain ⟨nodes, clients, rules, grants, links, hnodes, -, -, -, hlinks, rfl⟩ := hout
  have haddr : ∀ n ∈ db.nodes, n.status = .active → n.isHub = false → n.address ≠ none := by
    intro n hn hactive hhub
    obtain ⟨a, ha, -⟩ := h.nodes_inside n hn ⟨hactive, hhub⟩
    rw [ha]
    exact Option.some_ne_none a
  obtain ⟨hsrc, hdst⟩ := h.links_live l hl
  obtain ⟨k, hk⟩ := Option.isSome_iff_exists.mp (yields_of_linkable hnodes haddr hsrc hdst)
  obtain ⟨r, hr, r', -, hrid, hrid', hka, hks, hkd⟩ := hnodes.link hk
  exact ⟨k, List.mem_filterMap.mpr ⟨l, hlinks.mem_iff.mpr hl, hk⟩, r, hr, hrid, hka, hrid ▸ hks, hrid' ▸ hkd⟩

/-- A node that may be linked is a site. -/
theorem site_of_linkable (h : db.Linkable id) : ∃ n ∈ db.nodes, n.id = id ∧ n.site := by
  obtain ⟨n, hn, hid, hactive, hhub, -⟩ := h
  exact ⟨n, hn, hid, hactive, hhub⟩

/-- A listed node has the address of its row. -/
theorem ListedNode.unique {m : Node} (hm : ListedNode db.toTables out id m) {r : NodeRow} (hr : r ∈ db.nodes)
    (hid : r.id = id) : r.address = some m.address := by
  obtain ⟨-, r', hr', hid', haddr, -⟩ := hm
  rwa [node_eq_of_id db.wf hr (List.mem_filter.mp hr').1 (hid.trans hid'.symm)]

/-- A listed node has the subnets of its row. -/
theorem ListedNode.lans {m : Node} (hm : ListedNode db.toTables out id m) : m.subnets.Perm (db.subnetsOf id) := by
  obtain ⟨-, r, -, -, -, hperm⟩ := hm
  exact hperm

/-- **Links.** From the source's LANs and the source itself to the destination's LANs, and back. -/
theorem links_carry (h : Routable db.toTables) (hout : SnapshotOf db.toTables out) (hl : l ∈ db.links) :
    LinkCarried db.toTables out l := by
  obtain ⟨hsrc, hdst⟩ := h.links_live l hl
  obtain ⟨n, hn, hnid, hsite⟩ := site_of_linkable hsrc
  obtain ⟨n', hn', hnid', hsite'⟩ := site_of_linkable hdst
  obtain ⟨src, hlisted, hroute⟩ := site_listed h hout hn hsite
  obtain ⟨dst, hlisted', hroute'⟩ := site_listed h hout hn' hsite'
  rw [hnid] at hlisted
  rw [hnid'] at hlisted'
  refine ⟨src, dst, hlisted, hlisted', fun reachSrc reachDst hreach hreach' a b ha hb => ?_⟩
  have hne : l.src ≠ l.dst := db.wf.links_check l hl
  obtain ⟨s', hs', hb'⟩ := hb
  -- out at one end, in at the other: both files list what the link reaches
  have hsend : coveredBy (nodeAllowedIPs out.hub reachSrc) (.v4 b) = true := by
    rw [hout.hub, siteFile_covers hreach]
    exact Or.inr ⟨l, hl, Or.inl rfl, s', by simpa using hlisted'.lans.mem_iff.mp hs', hb'⟩
  have hreceive : coveredBy (nodeAllowedIPs out.hub reachDst) (.v4 a) = true := by
    rw [hout.hub, siteFile_covers hreach']
    rcases ha with ha | ⟨s, hs, hsa⟩
    · exact Or.inl (h.node_inside hn hsite ((hlisted.unique hn hnid).trans (congrArg some ha)))
    · exact Or.inr ⟨l, hl, Or.inr rfl, s, by rw [if_neg hne]; exact hlisted.lans.mem_iff.mp hs, hsa⟩
  obtain ⟨hown, hto⟩ := hroute a ha
  obtain ⟨hown', hto'⟩ := hroute' b (Or.inr ⟨s', hs', hb'⟩)
  refine ⟨⟨hsend, hown, hto', hreceive⟩, ⟨hreceive, hown', hto, hsend⟩, ?_⟩
  rintro p rfl rfl
  -- and the hub forwards it
  obtain ⟨k, hk, r, hr, hrid, hka, hks, hkd⟩ := link_listed h hout hl
  rw [forwardChain_accepts]
  refine Or.inr (Or.inr ⟨k, hk, ?_, s', hkd.mem_iff.mpr (hlisted'.lans.mem_iff.mp hs'), hb'⟩)
  rcases ha with ha | ⟨s, hs, hsa⟩
  · left
    rw [hka, hlisted.unique (List.mem_filter.mp hr).1 hrid, ha]
    rfl
  · exact Or.inr ⟨s, hks.mem_iff.mpr (hlisted.lans.mem_iff.mp hs), hsa⟩

/-- The destinations of a grant of a site are in the site's LANs. -/
theorem reaches_lan (h : Routable db.toTables) {g : Grant} (hcarry : Carries db.toTables row g) {a : Addr}
    (hreach : g.reaches a) : ∃ s ∈ db.subnetsOf row.nodeId, s.contains a = true := by
  rw [Grant.reaches_iff] at hreach
  split at hreach
  · obtain ⟨n, -, hid, -, -, hperm, -⟩ := hcarry.node
    obtain ⟨s, hs, hc⟩ := hreach
    exact ⟨s, hid ▸ hperm.mem_iff.mp hs, hc⟩
  · obtain ⟨r, hr, hc⟩ := hreach
    obtain ⟨rr, hrr, rfl⟩ := List.mem_map.mp (hcarry.rules.mem_iff.mp hr)
    obtain ⟨hrr, hkey⟩ := List.mem_filter.mp hrr
    have hnode : rr.nodeId = row.nodeId := congrArg Prod.snd (of_decide_eq_true hkey)
    exact hnode ▸ h.rules_inside rr hrr a hc

/-- **Grants.** From a device to the destinations of its grant of a site, and back. -/
theorem grants_carry (h : Routable db.toTables) (hout : SnapshotOf db.toTables out) (hc : c ∈ db.clients)
    (henabled : c.enabled = true) (hexp : ExportOf db.toTables c.id (.ok exp)) (hrow : row ∈ db.grants)
    (hclient : row.clientId = c.id) (hn : n ∈ db.nodes) (hnode : n.id = row.nodeId) (hsite : n.site) :
    GrantCarried db.toTables out exp c row n.id := by
  obtain ⟨addr, haddr, -⟩ := h.nodes_inside n hn hsite
  have hlive : db.nodeLive row.nodeId = true :=
    List.any_eq_true.mpr ⟨n, hn, by simp [hnode, hsite.1, haddr]⟩
  have hreads : row ∈ db.reachingGrants c.id :=
    List.mem_filter.mpr ⟨hrow, by simp [hclient, hlive]⟩
  obtain ⟨g, hg, hcarry⟩ := (export_grants hexp).item hreads
  obtain ⟨m, hlisted, hroute⟩ := site_listed h hout hn hsite
  refine ⟨g, hg, hcarry, m, hlisted, fun reach hreach a b ha hb => ?_⟩
  have hread : Reading db c out exp := ⟨hc, henabled, hout, hexp⟩
  have hexit : g.isExit = false := by
    obtain ⟨n', hn', hid', -, -, -, -, he, -⟩ := hcarry.node
    rw [he, node_eq_of_id db.wf hn' hn (hid'.trans hnode.symm)]
    exact hsite.2
  obtain ⟨s, hs, hsb⟩ := reaches_lan h hcarry hb
  rw [← hnode] at hs
  have hsend : coveredBy (clientAllowedIPs exp.hub exp.grants) (.v4 b) = true := by
    rw [clientAllowedIPs_covers]
    split
    · rfl
    · exact Or.inr ⟨g, hg, hb⟩
  have hreceive : coveredBy (nodeAllowedIPs out.hub reach) (.v4 a) = true := by
    rw [hout.hub, siteFile_covers hreach, ← ha]
    exact Or.inl (h.clients_inside c hc henabled)
  obtain ⟨hown, hto⟩ := (client_routed h hout hc henabled).2 a ha
  obtain ⟨hown', hto'⟩ := hroute b (Or.inr ⟨s, hlisted.lans.mem_iff.mpr hs, hsb⟩)
  exact ⟨⟨hsend, hown, hto', hreceive⟩, ⟨hreceive, hown', hto, hsend⟩,
    hread.accepted (hread.client_eq.trans ha) hg hexit hb⟩

end Paths

/-- **What the ruleset permits the tunnels can carry.** In every routable state, whatever the snapshot and the
    exports of it, packets pass every hop both ways: those of each link, and those of each grant that an
    enabled client has of a site. The peers are the printed file's by `Store.file_peers`, the chain is the loaded
    ruleset's by `Awg.renderNFT_forwardChain`. -/
theorem acl_permits_tunnels_carry (db : Db) (out : Snapshot) (h : Routable db.toTables)
    (hout : SnapshotOf db.toTables out) :
    (∀ l ∈ db.links, LinkCarried db.toTables out l) ∧
    ∀ c ∈ db.clients, c.enabled = true → c.toClient ∈ out.clients ∧
      ∀ exp, ExportOf db.toTables c.id (.ok exp) → ∀ row ∈ db.grants, row.clientId = c.id →
        ∀ n ∈ db.nodes, n.id = row.nodeId → n.site → GrantCarried db.toTables out exp c row n.id :=
  ⟨fun _ hl => links_carry h hout hl, fun _ hc henabled => ⟨(client_routed h hout hc henabled).1,
    fun _ hexp _ hrow hclient _ hn hnode hsite => grants_carry h hout hc henabled hexp hrow hclient hn hnode hsite⟩⟩

/-- Two linked sites and a device with a grant of one of them, limited to the LAN. -/
def twoSitesRun : List Op :=
  [.createNode 1 "home" "eth0" [⟨.ofBytes 192 168 1 0, 24⟩] ⟨"priv1", "pub1"⟩ "",
    .createNode 2 "office" "eth0" [⟨.ofBytes 192 168 2 0, 24⟩] ⟨"priv2", "pub2"⟩ "",
    .createClient 3 "phone" "" ⟨"priv3", "pub3"⟩ "", .setNodeLink 1 2, .setGrant 3 1,
    .setGrantRules 3 1 [⟨"192.168.1.0/24", "tcp", 80, 90⟩]]

/-- The state they lead to is routable. -/
theorem routable_twoSites : ∃ db,
    runAll apply Op.body (fun _ _ => true) (Db.boot demoHub "") twoSitesRun = some db ∧
    Routable db.toTables ∧ db.links ≠ [] ∧ db.grants ≠ [] := by
  have hrun : ((runAll apply Op.body (fun _ _ => true) (Db.boot demoHub "") twoSitesRun).any fun db =>
      (∀ n ∈ db.nodes, ∀ m ∈ db.nodes, n.id ≠ m.id → ∀ s ∈ db.subnetsOf n.id, ∀ s' ∈ db.subnetsOf m.id,
        s.overlaps s' = false) ∧
      (∀ n ∈ db.nodes, ∀ s ∈ db.subnetsOf n.id, s.overlaps db.hub.poolCIDR = false) ∧
      (∀ n ∈ db.nodes, n.address.any (db.hub.poolCIDR.contains ·) = true) ∧
      (∀ c ∈ db.clients, db.hub.poolCIDR.contains c.address = true) ∧
      (∀ n ∈ db.nodes, ∀ c ∈ db.clients, n.address ≠ some c.address) ∧
      (∀ l ∈ db.links, ∀ i ∈ [l.src, l.dst], ∃ n ∈ db.nodes, n.id = i ∧ n.status = .active ∧ n.isHub = false ∧
        db.subnetsOf i ≠ []) ∧
      (∀ r ∈ db.grantRules, r.dest ∈ db.subnetsOf r.nodeId) ∧ db.links ≠ [] ∧ db.grants ≠ []) = true := by
    decide +kernel
  obtain ⟨db, hdb, hcheck⟩ := (Option.any_eq_true _ _).mp hrun
  obtain ⟨hapart, hout, hnodes, hclients, haddrs, hlinks, hrules, hl, hg⟩ := of_decide_eq_true hcheck
  refine ⟨db, hdb, ⟨fun n hn m hm _ _ => hapart n hn m hm, fun n hn _ => hout n hn, fun n hn _ => ?_,
    fun c hc _ => hclients c hc, fun n hn _ c hc _ => haddrs n hn c hc, fun l hlm => ?_,
    fun r hr a ha => ⟨r.dest, hrules r hr, ha⟩⟩, hl, hg⟩
  · obtain ⟨a, ha, hin⟩ := (Option.any_eq_true _ _).mp (hnodes n hn)
    exact ⟨a, ha, hin⟩
  · exact ⟨hlinks l hlm _ (by simp), hlinks l hlm _ (by simp)⟩

/-- Two linked sites, with the link's traffic carried each hop of the way. -/
theorem acl_permits_tunnels_carry_twoSites : ∃ db : Db, ∃ l ∈ db.links,
    LinkCarried db.toTables (snapshot db.toTables) l := by
  obtain ⟨db, -, hroutable, hlinks, -⟩ := routable_twoSites
  obtain ⟨l, hl⟩ := List.exists_mem_of_ne_nil _ hlinks
  exact ⟨db, l, hl, (acl_permits_tunnels_carry db _ hroutable (snapshot_spec db.toTables)).1 l hl⟩

end Store
end BeautyAwg
