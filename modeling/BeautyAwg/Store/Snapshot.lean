import Mathlib.Data.List.Sort
import BeautyAwg.Store.Schema

/-!
# `Store.Snapshot`: what the renderers are given

`Snapshot` runs six queries and joins their rows. A query without ORDER BY, and an `array_agg`, returns its
rows in any order, so each query is a relation between the tables and the rows; joining them is a function.

## Contents
- **Queries.** `NodesRead`, `ClientsRead`, `RulesRead`, `GrantsRead`, `LinksRead`.
- **Join.** `assemble`; `SnapshotOf`: the queries all read one state.
- **Members.** What each node, grant and link of a snapshot comes from.
- **A snapshot.** `snapshot` computes one of them.
-/

namespace BeautyAwg
namespace Store

open Netip Awg

/-! ## Queries -/

/-- A node row as `listNodes` scans it. -/
def NodeRow.toNode (r : NodeRow) (subnets : List Prefix) (domains : List String) : Node where
  name := r.name
  address := r.address.getD .invalid
  subnets := subnets
  keys := r.keys
  lanIface := r.lanIface
  preshared := r.preshared
  isHub := r.isHub
  dns := r.dns
  domains := domains

/-- What a snapshot has of a client. -/
def ClientRow.toClient (r : ClientRow) : Client := ⟨r.name, r.address, r.keys, r.preshared, r.dns⟩

/-- `toRule`: NULL ports are zero. -/
def toRule (r : RuleRow) : GrantRule := ⟨r.dest, r.proto, r.portFrom.getD 0, r.portTo.getD 0⟩

/-- `ORDER BY address`. -/
def byAddress {α : Type} (address : α → Addr) (x y : Uuid × α) : Prop := (address x.2).le (address y.2) = true

/-- What `listNodes` can return: the live nodes by address, each with its subnets and domains in some
    order. -/
def NodesRead (t : Tables) (rows : List (Uuid × Node)) : Prop :=
  rows.Pairwise (byAddress Node.address) ∧
    ∃ (subnets : NodeRow → List Prefix) (domains : NodeRow → List String),
      (∀ r, (subnets r).Perm (t.subnetsOf r.id)) ∧ (∀ r, (domains r).Perm (t.domainsOf r.id)) ∧
        rows.Perm (t.liveNodes.map fun r => (r.id, r.toNode (subnets r) (domains r)))

/-- The clients that a snapshot shows. -/
def Tables.enabledClients (t : Tables) : List ClientRow := t.clients.filter ClientRow.enabled

/-- The enabled clients by address. -/
def ClientsRead (t : Tables) (rows : List (Uuid × Client)) : Prop :=
  rows.Pairwise (byAddress Client.address) ∧
    rows.Perm (t.enabledClients.map fun c => (c.id, c.toClient))

/-- All rules, in any order. -/
def RulesRead (t : Tables) (rows : List RuleRow) : Prop := rows.Perm t.grantRules

/-- The grants of enabled clients. -/
def Tables.enabledGrants (t : Tables) : List GrantRow :=
  t.grants.filter fun g => t.clients.any fun c => c.id = g.clientId ∧ c.enabled

/-- The grants of enabled clients, in any order. -/
def GrantsRead (t : Tables) (rows : List GrantRow) : Prop := rows.Perm t.enabledGrants

/-- All links, in any order. -/
def LinksRead (t : Tables) (rows : List LinkRow) : Prop := rows.Perm t.links

/-! ## Join -/

/-- What `Snapshot` returns. -/
structure Snapshot where
  hub : Hub
  nodes : List Node
  clients : List Client
  grants : List Grant
  links : List NodeLink
  deriving DecidableEq, Repr

/-- The grant of a row whose client and node were read. -/
def joinGrant (nodes : List (Uuid × Node)) (clients : List (Uuid × Client)) (rules : List RuleRow)
    (g : GrantRow) : Option Grant :=
  match clients.lookup g.clientId, nodes.lookup g.nodeId with
  | some client, some node => some
    { clientAddr := client.address
      nodeAddr := node.address
      subnets := node.subnets
      rules := (rules.filter fun r => r.key = g.key).map toRule
      isExit := node.isHub
      nodeExit := g.exit && !node.isHub
      nodeDNS := node.dns
      domains := [] }
  | _, _ => none

/-- The link of a row whose ends were read and have subnets. -/
def joinLink (nodes : List (Uuid × Node)) (l : LinkRow) : Option NodeLink :=
  match nodes.lookup l.src, nodes.lookup l.dst with
  | some src, some dst =>
    if src.subnets = [] ∨ dst.subnets = [] then none else some ⟨src.address, src.subnets, dst.subnets⟩
  | _, _ => none

/-- A snapshot from what its queries returned, matched by ids. -/
def assemble (hub : Hub) (nodes : List (Uuid × Node)) (clients : List (Uuid × Client))
    (rules : List RuleRow) (grants : List GrantRow) (links : List LinkRow) : Snapshot where
  hub := hub
  nodes := nodes.map Prod.snd
  clients := clients.map Prod.snd
  grants := grants.filterMap (joinGrant nodes clients rules)
  links := links.filterMap (joinLink nodes)

/-- A snapshot whose queries all read one state. -/
def SnapshotOf (t : Tables) (out : Snapshot) : Prop :=
  ∃ nodes clients rules grants links, NodesRead t nodes ∧ ClientsRead t clients ∧ RulesRead t rules ∧
    GrantsRead t grants ∧ LinksRead t links ∧ out = assemble t.hub nodes clients rules grants links

/-! ## Members -/

variable {t : Tables} {nodes : List (Uuid × Node)} {clients : List (Uuid × Client)} {out : Snapshot}

theorem mem_of_lookup {α : Type} {l : List (Uuid × α)} {id : Uuid} {a : α} (h : l.lookup id = some a) :
    (id, a) ∈ l := by
  induction l with
  | nil => exact absurd h (by simp)
  | cons x l ih =>
    obtain ⟨k, b⟩ := x
    by_cases hk : id = k
    · subst hk
      simp only [List.lookup_cons_self, Option.some.injEq] at h
      rw [h]
      exact List.mem_cons_self
    · rw [List.lookup_cons, beq_false_of_ne hk] at h
      exact List.mem_cons_of_mem _ (ih h)

/-- Every listed node is a live row with its subnets, in some order. -/
theorem NodesRead.row (h : NodesRead t nodes) {id : Uuid} {n : Node} (hn : (id, n) ∈ nodes) :
    ∃ r ∈ t.liveNodes, r.id = id ∧ n.subnets.Perm (t.subnetsOf id) ∧ n = r.toNode n.subnets n.domains := by
  obtain ⟨-, subnets, domains, hs, -, hperm⟩ := h
  obtain ⟨r, hr, he⟩ := List.mem_map.mp (hperm.mem_iff.mp hn)
  obtain ⟨rfl, rfl⟩ := Prod.mk.inj he
  exact ⟨r, hr, rfl, hs r, rfl⟩

/-- Every live row is listed. -/
theorem NodesRead.listed (h : NodesRead t nodes) {r : NodeRow} (hr : r ∈ t.liveNodes) :
    ∃ n, (r.id, n) ∈ nodes ∧ n.subnets.Perm (t.subnetsOf r.id) ∧ n = r.toNode n.subnets n.domains := by
  obtain ⟨-, subnets, domains, hs, -, hperm⟩ := h
  exact ⟨_, hperm.mem_iff.mpr (List.mem_map_of_mem hr), hs r, rfl⟩

/-- Every listed client is an enabled row. -/
theorem ClientsRead.row (h : ClientsRead t clients) {id : Uuid} {c : Client} (hc : (id, c) ∈ clients) :
    ∃ r ∈ t.clients, r.enabled = true ∧ r.id = id ∧ c = r.toClient := by
  obtain ⟨r, hr, he⟩ := List.mem_map.mp (h.2.mem_iff.mp hc)
  obtain ⟨hr, henabled⟩ := List.mem_filter.mp hr
  obtain ⟨hid, hcl⟩ := Prod.mk.inj he
  exact ⟨r, hr, henabled, hid, hcl.symm⟩

theorem SnapshotOf.hub (h : SnapshotOf t out) : out.hub = t.hub := by
  obtain ⟨nodes, clients, rules, grants, links, -, -, -, -, -, rfl⟩ := h
  rfl

/-- A snapshot's client is an enabled row. -/
theorem SnapshotOf.client (h : SnapshotOf t out) {c : Client} (hc : c ∈ out.clients) :
    ∃ r ∈ t.clients, r.enabled = true ∧ c = r.toClient := by
  obtain ⟨nodes, clients, rules, grants, links, -, hclients, -, -, -, rfl⟩ := h
  obtain ⟨⟨id, c⟩, hmem, rfl⟩ := List.mem_map.mp hc
  obtain ⟨r, hr, henabled, -, he⟩ := hclients.row hmem
  exact ⟨r, hr, henabled, he⟩

/-- A snapshot's node comes from a live row. -/
theorem SnapshotOf.node (h : SnapshotOf t out) {n : Node} (hn : n ∈ out.nodes) :
    ∃ r ∈ t.liveNodes, n.subnets.Perm (t.subnetsOf r.id) ∧ n = r.toNode n.subnets n.domains := by
  obtain ⟨nodes, clients, rules, grants, links, hnodes, -, -, -, -, rfl⟩ := h
  obtain ⟨⟨id, n⟩, hmem, rfl⟩ := List.mem_map.mp hn
  obtain ⟨r, hr, rfl, hs, he⟩ := hnodes.row hmem
  exact ⟨r, hr, hs, he⟩

/-- A live row is in the snapshot. -/
theorem SnapshotOf.live (h : SnapshotOf t out) {r : NodeRow} (hr : r ∈ t.liveNodes) :
    ∃ n ∈ out.nodes, n.subnets.Perm (t.subnetsOf r.id) ∧ n = r.toNode n.subnets n.domains := by
  obtain ⟨nodes, clients, rules, grants, links, hnodes, -, -, -, -, rfl⟩ := h
  obtain ⟨n, hmem, hs, he⟩ := hnodes.listed hr
  exact ⟨n, List.mem_map.mpr ⟨_, hmem, rfl⟩, hs, he⟩

/-- The grant of a row whose client and node were read carries the addresses of their rows. -/
theorem NodesRead.grant {t' : Tables} (h : NodesRead t nodes) (hclients : ClientsRead t' clients)
    {rules : List RuleRow} {row : GrantRow} {g : Grant} (hg : joinGrant nodes clients rules row = some g) :
    ∃ c ∈ t'.clients, ∃ r ∈ t.liveNodes, c.enabled = true ∧ c.id = row.clientId ∧ r.id = row.nodeId ∧
      g.clientAddr = c.address ∧ g.nodeAddr = r.address.getD .invalid ∧ g.subnets.Perm (t.subnetsOf r.id) ∧
      g.rules = (rules.filter fun r => r.key = row.key).map toRule ∧ g.isExit = r.isHub ∧
      g.nodeExit = (row.exit && !r.isHub) := by
  unfold joinGrant at hg
  split at hg
  · rename_i client node hc hn
    obtain ⟨r, hr, hrid, hs, he⟩ := h.row (mem_of_lookup hn)
    obtain ⟨c, hcm, henabled, hcid, rfl⟩ := hclients.row (mem_of_lookup hc)
    obtain rfl := Option.some.inj hg
    have hnode : node.address = r.address.getD .invalid ∧ node.isHub = r.isHub := by
      rw [he]
      exact ⟨rfl, rfl⟩
    exact ⟨c, hcm, r, hr, henabled, hcid, hrid, rfl, hnode.1, hrid ▸ hs, rfl, hnode.2, by simp [hnode.2]⟩
  · exact absurd hg (by simp)

/-- A snapshot's grant comes from a row of an enabled client and a live node. -/
theorem SnapshotOf.grant (h : SnapshotOf t out) {g : Grant} (hg : g ∈ out.grants) :
    ∃ row ∈ t.grants, ∃ c ∈ t.clients, ∃ r ∈ t.liveNodes,
      c.enabled = true ∧ c.id = row.clientId ∧ r.id = row.nodeId ∧
      g.clientAddr = c.address ∧ g.nodeAddr = r.address.getD .invalid ∧
      g.subnets.Perm (t.subnetsOf r.id) ∧
      (∀ rule ∈ g.rules, ∃ rr ∈ t.grantRules, rr.key = row.key ∧ rule = toRule rr) ∧
      g.isExit = r.isHub ∧ g.nodeExit = (row.exit && !r.isHub) := by
  obtain ⟨nodes, clients, rules, grants, links, hnodes, hclients, hrules, hgrants, -, rfl⟩ := h
  obtain ⟨row, hrow, hjoin⟩ := List.mem_filterMap.mp hg
  obtain ⟨c, hc, r, hr, henabled, hcid, hrid, hcaddr, hraddr, hs, hgrules, hexit⟩ := hnodes.grant hclients hjoin
  refine ⟨row, (List.mem_filter.mp (hgrants.mem_iff.mp hrow)).1, c, hc, r, hr, henabled, hcid, hrid, hcaddr, hraddr,
    hs, fun rule hrule => ?_, hexit⟩
  rw [hgrules] at hrule
  obtain ⟨rr, hrr, rfl⟩ := List.mem_map.mp hrule
  obtain ⟨hmem, hkey⟩ := List.mem_filter.mp hrr
  exact ⟨rr, hrules.mem_iff.mp hmem, by simpa using hkey, rfl⟩

/-- A snapshot's grant names the DNS server of a live node. -/
theorem SnapshotOf.grant_dns (h : SnapshotOf t out) {g : Grant} (hg : g ∈ out.grants) :
    ∃ r ∈ t.liveNodes, g.nodeDNS = r.dns := by
  obtain ⟨nodes, clients, rules, grants, links, hnodes, -, -, -, -, rfl⟩ := h
  obtain ⟨row, -, hjoin⟩ := List.mem_filterMap.mp hg
  unfold joinGrant at hjoin
  split at hjoin
  · rename_i client node _ hn
    obtain ⟨r, hr, -, -, he⟩ := hnodes.row (mem_of_lookup hn)
    obtain rfl := Option.some.inj hjoin
    refine ⟨r, hr, ?_⟩
    show node.dns = r.dns
    rw [he]
    rfl
  · exact absurd hjoin (by simp)

/-- The link of a row whose ends were read carries their live rows' addresses and subnets. -/
theorem NodesRead.link (h : NodesRead t nodes) {row : LinkRow} {l : NodeLink}
    (hl : joinLink nodes row = some l) :
    ∃ a ∈ t.liveNodes, ∃ b ∈ t.liveNodes, a.id = row.src ∧ b.id = row.dst ∧
      l.srcAddr = a.address.getD .invalid ∧ l.srcSubnets.Perm (t.subnetsOf a.id) ∧
      l.dstSubnets.Perm (t.subnetsOf b.id) := by
  unfold joinLink at hl
  split at hl
  · rename_i src dst hs hd
    obtain ⟨a, ha, haid, has, hae⟩ := h.row (mem_of_lookup hs)
    obtain ⟨b, hb, hbid, hbs, -⟩ := h.row (mem_of_lookup hd)
    split at hl
    · exact absurd hl (by simp)
    · obtain rfl := Option.some.inj hl
      have haddr : src.address = a.address.getD .invalid := by
        rw [hae]
        rfl
      exact ⟨a, ha, b, hb, haid, hbid, haddr, haid ▸ has, hbid ▸ hbs⟩
  · exact absurd hl (by simp)

/-- A snapshot's link comes from a row between live nodes. -/
theorem SnapshotOf.link (h : SnapshotOf t out) {l : NodeLink} (hl : l ∈ out.links) :
    ∃ row ∈ t.links, ∃ a ∈ t.liveNodes, ∃ b ∈ t.liveNodes, a.id = row.src ∧ b.id = row.dst ∧
      l.srcAddr = a.address.getD .invalid ∧ l.srcSubnets.Perm (t.subnetsOf a.id) ∧
      l.dstSubnets.Perm (t.subnetsOf b.id) := by
  obtain ⟨nodes, clients, rules, grants, links, hnodes, -, -, -, hlinks, rfl⟩ := h
  obtain ⟨row, hrow, hjoin⟩ := List.mem_filterMap.mp hl
  exact ⟨row, hlinks.mem_iff.mp hrow, hnodes.link hjoin⟩

/-! ## A snapshot -/

section ByAddress

variable {α : Type} (address : α → Addr)

instance : DecidableRel (byAddress address) := fun _ _ => inferInstanceAs (Decidable (_ = true))

instance : Std.Total (byAddress address) where
  total x y := by simpa [byAddress] using Addr.le_total (address x.2) (address y.2)

instance : IsTrans (Uuid × α) (byAddress address) where
  trans _ _ _ := Addr.le_trans

end ByAddress

/-- The live nodes by address, those of one address in table order. -/
def Tables.nodeRows (t : Tables) : List (Uuid × Node) :=
  (t.liveNodes.map fun r => (r.id, r.toNode (t.subnetsOf r.id) (t.domainsOf r.id))).insertionSort
    (byAddress Node.address)

/-- The enabled clients likewise. -/
def Tables.clientRows (t : Tables) : List (Uuid × Client) :=
  (t.enabledClients.map fun c => (c.id, c.toClient)).insertionSort (byAddress Client.address)

theorem nodesRead_rows (t : Tables) : NodesRead t t.nodeRows :=
  ⟨List.pairwise_insertionSort _ _, _, _, fun _ => List.Perm.refl _, fun _ => List.Perm.refl _,
    List.perm_insertionSort _ _⟩

theorem clientsRead_rows (t : Tables) : ClientsRead t t.clientRows :=
  ⟨List.pairwise_insertionSort _ _, List.perm_insertionSort _ _⟩

/-- The snapshot whose queries return their rows in table order. -/
def snapshot (t : Tables) : Snapshot := assemble t.hub t.nodeRows t.clientRows t.grantRules t.enabledGrants t.links

theorem snapshot_spec (t : Tables) : SnapshotOf t (snapshot t) :=
  ⟨_, _, _, _, _, nodesRead_rows t, clientsRead_rows t, List.Perm.refl _, List.Perm.refl _, List.Perm.refl _, rfl⟩

end Store
end BeautyAwg
