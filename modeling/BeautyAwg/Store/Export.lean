import BeautyAwg.Store.Snapshot

/-!
# `Store.Export`: what a device's configuration is rendered from

`GetClientForExport` reads one client, whatever its `enabled` flag, and its grants of live nodes. It joins
the tables on its own, apart from `Snapshot`.

## Contents
- **Queries.** `ExportRead`: the rows of the grants query.
- **Join.** `exportGrant`; `ExportOf`: the queries all read one state.
- **An export.** `clientExport` computes one of them.
-/

namespace BeautyAwg
namespace Store

open Netip Awg

/-! ## Queries -/

/-- A row of the grants query. -/
structure ExportRow where
  nodeId : Uuid
  address : Addr
  dns : String
  exit : Bool
  isHub : Bool
  subnets : List Prefix
  domains : List String
  deriving DecidableEq, Repr

/-- The grants of a client with their nodes, as far as these are live. -/
def Tables.clientGrants (t : Tables) (id : Uuid) : List (GrantRow × NodeRow) :=
  (t.grants.filter fun g => g.clientId = id).filterMap fun g =>
    (t.liveNodes.find? fun n => n.id = g.nodeId).map fun n => (g, n)

/-- A granted node, as the query of a device's export returns it. -/
def exportRow (subnets : NodeRow → List Prefix) (domains : NodeRow → List String) (g : GrantRow)
    (n : NodeRow) : ExportRow :=
  ⟨n.id, n.address.getD .invalid, n.dns, g.exit, n.isHub, subnets n, domains n⟩

/-- What the grants query can return, the subnets and domains of a node in some order. -/
def ExportRead (t : Tables) (id : Uuid) (rows : List ExportRow) : Prop :=
  ∃ (subnets : NodeRow → List Prefix) (domains : NodeRow → List String),
    (∀ r, (subnets r).Perm (t.subnetsOf r.id)) ∧ (∀ r, (domains r).Perm (t.domainsOf r.id)) ∧
      rows.Perm ((t.clientGrants id).map fun (g, n) => exportRow subnets domains g n)

/-! ## Join -/

/-- What `GetClientForExport` returns. -/
structure ClientExport where
  hub : Hub
  client : Client
  grants : List Grant
  deriving DecidableEq, Repr

/-- The grant of a row. -/
def exportGrant (client : Client) (id : Uuid) (rules : List RuleRow) (row : ExportRow) : Grant where
  clientAddr := client.address
  nodeAddr := row.address
  subnets := row.subnets
  rules := (rules.filter fun r => r.key = (id, row.nodeId)).map toRule
  isExit := row.isHub
  nodeExit := row.exit && !row.isHub
  nodeDNS := row.dns
  domains := row.domains

/-- An export whose queries all read one state. -/
def ExportOf (t : Tables) (id : Uuid) : Except StoreErr ClientExport → Prop
  | .error e => e = .noRows ∧ id ∉ t.clients.map ClientRow.id
  | .ok out => ∃ c ∈ t.clients, c.id = id ∧ ∃ rows rules, ExportRead t id rows ∧ RulesRead t rules ∧
      out = ⟨t.hub, c.toClient, rows.map (exportGrant c.toClient id rules)⟩

/-! ## An export -/

/-- The export whose queries return their rows in table order. -/
def clientExport (t : Tables) (id : Uuid) : Except StoreErr ClientExport :=
  match t.clients.find? fun c => c.id = id with
  | none => .error .noRows
  | some c =>
    let rows := (t.clientGrants id).map fun (g, n) =>
      exportRow (fun n => t.subnetsOf n.id) (fun n => t.domainsOf n.id) g n
    .ok ⟨t.hub, c.toClient, rows.map (exportGrant c.toClient id t.grantRules)⟩

theorem clientExport_spec (t : Tables) (id : Uuid) : ExportOf t id (clientExport t id) := by
  unfold clientExport
  split
  · rename_i h
    refine ⟨rfl, fun hmem => ?_⟩
    obtain ⟨c, hc, hid⟩ := List.mem_map.mp hmem
    exact absurd hid (by simpa using List.find?_eq_none.mp h c hc)
  · rename_i c h
    have hid := List.find?_some h
    exact ⟨c, List.mem_of_find?_eq_some h, of_decide_eq_true hid, _, _,
      ⟨_, _, fun _ => List.Perm.refl _, fun _ => List.Perm.refl _, List.Perm.refl _⟩, List.Perm.refl _, rfl⟩

/-- A client has an export. -/
theorem exists_exportOf {t : Tables} {id : Uuid} (h : id ∈ t.clients.map ClientRow.id) :
    ∃ exp, ExportOf t id (.ok exp) := by
  have hspec := clientExport_spec t id
  cases hexp : clientExport t id with
  | error e =>
    rw [hexp] at hspec
    exact absurd h hspec.2
  | ok exp =>
    rw [hexp] at hspec
    exact ⟨exp, hspec⟩

end Store
end BeautyAwg
