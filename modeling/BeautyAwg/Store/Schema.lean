import Mathlib.Data.List.Nodup
import BeautyAwg.Awg.Model

/-!
# `Store.Schema`: the panel's tables

The rows and constraints of `internal/store/migrations`, and the statements the store writes with. A
database (`Db`) carries its constraints as a field: a statement builds the new tables and `Tables.commit`
refuses them when a constraint fails.

## Contents
- **Rows.** One structure per table; columns no modelled query reads (timestamps, saved layouts,
  operators) are left out. A row id is a number.
- **Constraints.** `Tables.Constraints`: keys, references and checks.
- **Statements.** `Write`, `Write.eval`, `apply`.
- **Keys.** What a row has to itself.
-/

namespace BeautyAwg
namespace Store

open Netip Awg

/-- A row id. -/
abbrev Uuid := Nat

/-! ## Rows -/

/-- Where a node stands: announced, taken in, or turned away. -/
inductive NodeStatus where
  | pending
  | active
  | rejected
  deriving DecidableEq, Repr

/-- A row of `nodes`. A node that announced itself has a token, and no address before it is approved. -/
structure NodeRow where
  id : Uuid
  name : String
  address : Option Addr
  lanIface : String
  keys : Keypair
  preshared : String
  status : NodeStatus
  enrollToken : Option String
  hostname : String
  isHub : Bool
  dns : String
  color : String
  deriving DecidableEq, Repr

/-- A row of `node_subnets`: a LAN behind a node. -/
structure SubnetRow where
  nodeId : Uuid
  subnet : Prefix
  deriving DecidableEq, Repr

/-- A row of `node_domains`: a zone that a node's DNS server answers for. -/
structure DomainRow where
  nodeId : Uuid
  domain : String
  deriving DecidableEq, Repr

/-- A row of `clients`: a device. -/
structure ClientRow where
  id : Uuid
  name : String
  address : Addr
  keys : Keypair
  preshared : String
  dns : String
  enabled : Bool
  color : String
  deriving DecidableEq, Repr

/-- A row of `grants`: the device may reach the node's subnets, or with `exit` everything through it. -/
structure GrantRow where
  clientId : Uuid
  nodeId : Uuid
  exit : Bool
  deriving DecidableEq, Repr

/-- A row of `grant_rules`: what a grant is narrowed to. -/
structure RuleRow where
  clientId : Uuid
  nodeId : Uuid
  dest : Prefix
  proto : String
  portFrom : Option Int
  portTo : Option Int
  deriving DecidableEq, Repr

/-- A row of `node_links`: the first node's LANs may reach the second's. -/
structure LinkRow where
  src : Uuid
  dst : Uuid
  deriving DecidableEq, Repr

/-- The primary key. -/
def GrantRow.key (g : GrantRow) : Uuid × Uuid := (g.clientId, g.nodeId)

/-- The grant that the rule belongs to. -/
def RuleRow.key (r : RuleRow) : Uuid × Uuid := (r.clientId, r.nodeId)

/-- The tables. `hub` is the singleton row as `GetHub` returns it. -/
structure Tables where
  hub : Hub
  enrollSecret : String
  nodes : List NodeRow
  subnets : List SubnetRow
  domains : List DomainRow
  clients : List ClientRow
  grants : List GrantRow
  grantRules : List RuleRow
  links : List LinkRow
  deriving DecidableEq, Repr

/-! ## Constraints -/

/-- What the `cidr` type holds: a prefix without host bits. -/
def IsCidr (p : Prefix) : Prop := p.isValid = true ∧ p.masked = p

instance (p : Prefix) : Decidable (IsCidr p) := inferInstanceAs (Decidable (_ ∧ _))

/-- The checks on `port_from` and `port_to`. -/
def PortsOk (portFrom portTo : Option Int) : Prop :=
  (∀ p ∈ portFrom, 1 ≤ p ∧ p ≤ 65535) ∧ (∀ p ∈ portTo, 1 ≤ p ∧ p ≤ 65535) ∧
    ∀ a ∈ portFrom, ∀ b ∈ portTo, a ≤ b

instance (a b : Option Int) : Decidable (PortsOk a b) := inferInstanceAs (Decidable (_ ∧ _ ∧ _))

/-- The constraints of the migrations. Neither a public key nor, across the two tables, a tunnel address
    is among them. -/
@[mk_iff]
structure Tables.Constraints (t : Tables) : Prop where
  nodes_pkey : (t.nodes.map NodeRow.id).Nodup
  nodes_name_key : (t.nodes.map NodeRow.name).Nodup
  nodes_address_key : (t.nodes.filterMap NodeRow.address).Nodup
  nodes_enroll_token_key : (t.nodes.filterMap NodeRow.enrollToken).Nodup
  nodes_single_hub : (t.nodes.filter NodeRow.isHub).length ≤ 1
  subnets_pkey : t.subnets.Nodup
  subnets_node_fkey : ∀ s ∈ t.subnets, s.nodeId ∈ t.nodes.map NodeRow.id
  subnets_cidr : ∀ s ∈ t.subnets, IsCidr s.subnet
  domains_pkey : t.domains.Nodup
  domains_node_fkey : ∀ d ∈ t.domains, d.nodeId ∈ t.nodes.map NodeRow.id
  clients_pkey : (t.clients.map ClientRow.id).Nodup
  clients_address_key : (t.clients.map ClientRow.address).Nodup
  grants_pkey : (t.grants.map GrantRow.key).Nodup
  grants_client_fkey : ∀ g ∈ t.grants, g.clientId ∈ t.clients.map ClientRow.id
  grants_node_fkey : ∀ g ∈ t.grants, g.nodeId ∈ t.nodes.map NodeRow.id
  rules_grant_fkey : ∀ r ∈ t.grantRules, r.key ∈ t.grants.map GrantRow.key
  rules_cidr : ∀ r ∈ t.grantRules, IsCidr r.dest
  rules_proto_check : ∀ r ∈ t.grantRules, r.proto = "any" ∨ r.proto = "tcp" ∨ r.proto = "udp"
  rules_port_check : ∀ r ∈ t.grantRules, PortsOk r.portFrom r.portTo
  links_pkey : t.links.Nodup
  links_src_fkey : ∀ l ∈ t.links, l.src ∈ t.nodes.map NodeRow.id
  links_dst_fkey : ∀ l ∈ t.links, l.dst ∈ t.nodes.map NodeRow.id
  links_check : ∀ l ∈ t.links, l.src ≠ l.dst

instance (t : Tables) : Decidable t.Constraints := decidable_of_iff _ (Tables.constraints_iff t).symm

/-- A database: tables that satisfy their constraints. -/
structure Db extends Tables where
  wf : toTables.Constraints

/-- The database after the panel's first start: the hub row alone. -/
def Db.boot (hub : Hub) (enrollSecret : String) : Db where
  toTables := ⟨hub, enrollSecret, [], [], [], [], [], [], []⟩
  wf := by constructor <;> simp

/-- What a store call fails with: no row where one was asked for, a refused statement, a runtime panic,
    or a message of the store's own. -/
inductive StoreErr where
  | noRows
  | constraint
  | panic
  | text (s : String)
  deriving DecidableEq, Repr

/-- The new tables, if the constraints hold of them. -/
def Tables.commit (t : Tables) : Except StoreErr Db :=
  if h : t.Constraints then .ok ⟨t, h⟩ else .error .constraint

/-! ## Statements -/

/-- One row written. A statement that deletes several rows deletes the ones it saw. -/
inductive Write where
  | insertNode (r : NodeRow)
  | updateNode (id : Uuid) (f : NodeRow → NodeRow)
  | deleteNode (id : Uuid)
  | insertSubnet (s : SubnetRow)
  | deleteSubnet (s : SubnetRow)
  | insertDomain (d : DomainRow)
  | deleteDomain (d : DomainRow)
  | insertClient (r : ClientRow)
  | updateClient (id : Uuid) (f : ClientRow → ClientRow)
  | deleteClient (id : Uuid)
  | insertGrant (g : GrantRow)
  | setExit (key : Uuid × Uuid) (exit : Bool)
  | deleteGrant (key : Uuid × Uuid)
  | insertRule (r : RuleRow)
  | deleteRule (r : RuleRow)
  | insertLink (l : LinkRow)
  | deleteLink (l : LinkRow)

/-- The tables after a write, with `ON CONFLICT DO NOTHING` and the cascades of the references. -/
def Write.eval (t : Tables) : Write → Tables
  | insertNode r => { t with nodes := t.nodes ++ [r] }
  | updateNode id f => { t with nodes := t.nodes.map fun r => if r.id = id then f r else r }
  | deleteNode id =>
    { t with
      nodes := t.nodes.filter fun r => r.id ≠ id
      subnets := t.subnets.filter fun s => s.nodeId ≠ id
      domains := t.domains.filter fun d => d.nodeId ≠ id
      grants := t.grants.filter fun g => g.nodeId ≠ id
      grantRules := t.grantRules.filter fun r => r.nodeId ≠ id
      links := t.links.filter fun l => l.src ≠ id ∧ l.dst ≠ id }
  | insertSubnet s => { t with subnets := t.subnets ++ [s] }
  | deleteSubnet s => { t with subnets := t.subnets.erase s }
  | insertDomain d => { t with domains := if d ∈ t.domains then t.domains else t.domains ++ [d] }
  | deleteDomain d => { t with domains := t.domains.erase d }
  | insertClient r => { t with clients := t.clients ++ [r] }
  | updateClient id f => { t with clients := t.clients.map fun r => if r.id = id then f r else r }
  | deleteClient id =>
    { t with
      clients := t.clients.filter fun r => r.id ≠ id
      grants := t.grants.filter fun g => g.clientId ≠ id
      grantRules := t.grantRules.filter fun r => r.clientId ≠ id }
  | insertGrant g =>
    { t with grants := if g.key ∈ t.grants.map GrantRow.key then t.grants else t.grants ++ [g] }
  | setExit key exit =>
    { t with grants := t.grants.map fun g => if g.key = key then { g with exit := exit } else g }
  | deleteGrant key =>
    { t with
      grants := t.grants.filter fun g => g.key ≠ key
      grantRules := t.grantRules.filter fun r => r.key ≠ key }
  | insertRule r => { t with grantRules := t.grantRules ++ [r] }
  | deleteRule r => { t with grantRules := t.grantRules.erase r }
  | insertLink l => { t with links := if l ∈ t.links then t.links else t.links ++ [l] }
  | deleteLink l => { t with links := t.links.erase l }

/-- A write with its constraint checks. -/
def apply (w : Write) (db : Db) : Except StoreErr Db := (w.eval db.toTables).commit

theorem Tables.commit_eq_ok {t : Tables} {db : Db} : t.commit = .ok db ↔ t = db.toTables := by
  unfold Tables.commit
  split
  · rename_i h
    exact ⟨fun he => by rw [← Except.ok.inj he], fun he => by subst he; rfl⟩
  · rename_i h
    exact ⟨fun he => absurd he (by simp), fun he => absurd (he ▸ db.wf) h⟩

theorem apply_eq_ok {w : Write} {db db' : Db} : apply w db = .ok db' ↔ w.eval db.toTables = db'.toTables :=
  Tables.commit_eq_ok

/-! ## Keys -/

section Keys

variable {t : Tables} (wf : t.Constraints)

include wf

/-- A row has its id to itself. -/
theorem node_eq_of_id {n n' : NodeRow} (hn : n ∈ t.nodes) (hn' : n' ∈ t.nodes) (hid : n.id = n'.id) : n = n' :=
  List.inj_on_of_nodup_map wf.nodes_pkey hn hn' hid

theorem client_eq_of_id {c c' : ClientRow} (hc : c ∈ t.clients) (hc' : c' ∈ t.clients) (hid : c.id = c'.id) :
    c = c' :=
  List.inj_on_of_nodup_map wf.clients_pkey hc hc' hid

theorem client_eq_of_address {c c' : ClientRow} (hc : c ∈ t.clients) (hc' : c' ∈ t.clients)
    (haddr : c.address = c'.address) : c = c' :=
  List.inj_on_of_nodup_map wf.clients_address_key hc hc' haddr

theorem grant_eq_of_key {g g' : GrantRow} (hg : g ∈ t.grants) (hg' : g' ∈ t.grants) (hkey : g.key = g'.key) :
    g = g' :=
  List.inj_on_of_nodup_map wf.grants_pkey hg hg' hkey

end Keys

/-! ## Queries -/

namespace Tables

variable (t : Tables)

/-- The subnets of a node. -/
def subnetsOf (id : Uuid) : List Prefix :=
  (t.subnets.filter fun s => s.nodeId = id).map SubnetRow.subnet

/-- The domains of a node. -/
def domainsOf (id : Uuid) : List String :=
  (t.domains.filter fun d => d.nodeId = id).map DomainRow.domain

/-- The nodes a snapshot shows: active, with an address. -/
def liveNodes : List NodeRow := t.nodes.filter fun n => n.status = .active ∧ n.address ≠ none

/-- The addresses `AllocateIP` counts as used: those of nodes, then those of clients. -/
def heldAddrs : List Addr := t.nodes.filterMap NodeRow.address ++ t.clients.map ClientRow.address

end Tables

theorem mem_subnetsOf {t : Tables} {id : Uuid} {p : Prefix} : p ∈ t.subnetsOf id ↔ ⟨id, p⟩ ∈ t.subnets := by
  simp only [Tables.subnetsOf, List.mem_map, List.mem_filter, decide_eq_true_eq]
  constructor
  · rintro ⟨s, ⟨hs, rfl⟩, rfl⟩
    exact hs
  · exact fun h => ⟨_, ⟨h, rfl⟩, rfl⟩

end Store
end BeautyAwg
