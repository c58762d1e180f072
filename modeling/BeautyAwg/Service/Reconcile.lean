import BeautyAwg.Api.Handlers
import BeautyAwg.Awg.Nft
import BeautyAwg.Awg.Render
import BeautyAwg.Store.Snapshot

/-!
# `Service.Reconcile`: from the database to the hub

`Reconcile` (`internal/service`) takes the service mutex, reads a snapshot query by query and hands what it
renders to the applier in three calls. `World` puts any number of requests beside each other: each commits
its store calls one by one, statement by statement beside those of the others, and then reconciles. The
optional resolver, which reads the database once more after the applier, is left out.

## Contents
- **Plan.** `Plan.of`: what a snapshot is rendered to.
- **Requests side by side.** `Stage`, `World`, `World.Step`.
-/

namespace BeautyAwg
namespace Service

open Netip Awg Store Api

/-! ## Plan -/

/-- A client's whole traffic leaves through a node. -/
structure ExitRoute where
  client : Addr
  node : Addr
  deriving DecidableEq, Repr

/-- The LANs of the non-hub nodes, which are routed to the tunnel interface. -/
def meshRoutes (nodes : List Node) : List Prefix := (nodes.filter fun n => !n.isHub).flatMap Node.subnets

/-- The destinations inside the VPN: the LANs and the pool. -/
def mesh (hub : Hub) (nodes : List Node) : List Prefix :=
  meshRoutes nodes ++ if hub.poolCIDR.isValid then [hub.poolCIDR] else []

/-- Who exits where: the grants that are an exit through a node. -/
def exitRoutes (grants : List Grant) : List ExitRoute :=
  (grants.filter Grant.nodeExit).map fun g => ⟨g.clientAddr, g.nodeAddr⟩

/-- The arguments of one reconcile's calls of the applier. -/
structure Plan where
  hubConf : String
  nftRules : String
  routes : List Prefix
  hubAddr : Addr
  mesh : List Prefix
  exits : List ExitRoute
  deriving DecidableEq, Repr

/-- Everything a reconcile derives from what it has read. -/
def Plan.of (s : Snapshot) : Plan where
  hubConf := renderHub s.hub s.nodes s.clients
  nftRules := renderNFT s.hub s.nodes s.grants s.links
  routes := meshRoutes s.nodes
  hubAddr := s.hub.address
  mesh := Service.mesh s.hub s.nodes
  exits := exitRoutes s.grants

/-- What the applier was last handed by each of its three calls. -/
structure Applied where
  apply : Option (String × String)
  ensureRoutes : Option (List Prefix)
  ensureExitRoutes : Option (Addr × List Prefix × List ExitRoute)
  deriving DecidableEq, Repr

/-- The applier was last handed this plan by all three. -/
def Applied.of (p : Plan) : Applied :=
  ⟨some (p.hubConf, p.nftRules), some p.routes, some (p.hubAddr, p.mesh, p.exits)⟩

/-! ## Requests side by side -/

/-- What a request does next, with what its reconcile has read so far. -/
inductive Stage where
  | call (ops : List Op)
  | calling (ops : List Op)
  | readHub
  | readNodes (hub : Hub)
  | readClients (hub : Hub) (nodes : List (Uuid × Node))
  | readRules (hub : Hub) (nodes : List (Uuid × Node)) (clients : List (Uuid × Client))
  | readGrants (hub : Hub) (nodes : List (Uuid × Node)) (clients : List (Uuid × Client))
      (rules : List RuleRow)
  | readLinks (hub : Hub) (nodes : List (Uuid × Node)) (clients : List (Uuid × Client))
      (rules : List RuleRow) (grants : List GrantRow)
  | apply (s : Snapshot)
  | ensureRoutes (s : Snapshot)
  | ensureExitRoutes (s : Snapshot)
  | returned

/-- The database server, the owner of the service mutex, the requests so far and the applier. -/
structure World where
  sys : Txn.Sys Op Db Write Lock StoreErr
  mutex : Option Nat
  requests : Nat → Option Stage
  applied : Applied

namespace World

/-- One request's progress. -/
def setStage (w : World) (i : Nat) (s : Stage) : Nat → Option Stage :=
  fun j => if j = i then some s else w.requests j

/-- The committed database. -/
def db (w : World) : Db := w.sys.committed

/-- Request `i` moves on to a stage and changes nothing else. -/
def goto (w : World) (i : Nat) (s : Stage) : World := { w with requests := w.setStage i s }

/-- One step of one request, in which every store and applier call succeeds. Only operators' requests are
    made; each query reads what is committed when it runs. -/
inductive Step : World → World → Prop
  | start {w : World} {i : Nat} {req : AdminReq} {fresh : Fresh} {ops : List Op} (hfree : w.requests i = none)
      (hcalls : req.calls fresh = .ok ops) : Step w (w.goto i (.call ops))
  | begin {w : World} {i : Nat} {op : Op} {ops : List Op} {sys} (hi : w.requests i = some (.call (op :: ops)))
      (hfire : Txn.fire Store.apply Op.body w.sys (.start i op) = some sys) :
      Step w { w.goto i (.calling ops) with sys := sys }
  | statement {w : World} {i : Nat} {ops : List Op} {t t' sys} (hi : w.requests i = some (.calling ops))
      (ht : w.sys.sessions i = some t) (hfire : Txn.fire Store.apply Op.body w.sys (.next i) = some sys)
      (ht' : sys.sessions i = some t') : Step w { w with sys := sys }
  | commit {w : World} {i : Nat} {ops : List Op} {t sys} (hi : w.requests i = some (.calling ops))
      (ht : w.sys.sessions i = some t) (hret : t.rest = .ret ())
      (hfire : Txn.fire Store.apply Op.body w.sys (.next i) = some sys) :
      Step w { w.goto i (.call ops) with sys := sys }
  | lock {w : World} {i : Nat} (hi : w.requests i = some (.call [])) (hfree : w.mutex = none) :
      Step w { w.goto i .readHub with mutex := some i }
  | readHub {w : World} {i : Nat} (hi : w.requests i = some .readHub) : Step w (w.goto i (.readNodes w.db.hub))
  | readNodes {w : World} {i : Nat} {hub nodes} (hi : w.requests i = some (.readNodes hub))
      (hread : NodesRead w.db.toTables nodes) : Step w (w.goto i (.readClients hub nodes))
  | readClients {w : World} {i : Nat} {hub nodes clients} (hi : w.requests i = some (.readClients hub nodes))
      (hread : ClientsRead w.db.toTables clients) : Step w (w.goto i (.readRules hub nodes clients))
  | readRules {w : World} {i : Nat} {hub nodes clients rules}
      (hi : w.requests i = some (.readRules hub nodes clients)) (hread : RulesRead w.db.toTables rules) :
      Step w (w.goto i (.readGrants hub nodes clients rules))
  | readGrants {w : World} {i : Nat} {hub nodes clients rules grants}
      (hi : w.requests i = some (.readGrants hub nodes clients rules)) (hread : GrantsRead w.db.toTables grants) :
      Step w (w.goto i (.readLinks hub nodes clients rules grants))
  | readLinks {w : World} {i : Nat} {hub nodes clients rules grants links}
      (hi : w.requests i = some (.readLinks hub nodes clients rules grants))
      (hread : LinksRead w.db.toTables links) :
      Step w (w.goto i (.apply (assemble hub nodes clients rules grants links)))
  | apply {w : World} {i : Nat} {s : Snapshot} (hi : w.requests i = some (.apply s)) :
      Step w { w.goto i (.ensureRoutes s) with
        applied := { w.applied with apply := some ((Plan.of s).hubConf, (Plan.of s).nftRules) } }
  | ensureRoutes {w : World} {i : Nat} {s : Snapshot} (hi : w.requests i = some (.ensureRoutes s)) :
      Step w { w.goto i (.ensureExitRoutes s) with
        applied := { w.applied with ensureRoutes := some (Plan.of s).routes } }
  | ensureExitRoutes {w : World} {i : Nat} {s : Snapshot} (hi : w.requests i = some (.ensureExitRoutes s)) :
      Step w { w.goto i .returned with
        mutex := none
        applied := { w.applied with
          ensureExitRoutes := some ((Plan.of s).hubAddr, (Plan.of s).mesh, (Plan.of s).exits) } }

/-- Any number of steps. -/
def Steps : World → World → Prop := Relation.ReflTransGen Step

/-- Before the first request, on any database. -/
def init (db : Db) : World := ⟨.idle db, none, fun _ => none, ⟨none, none, none⟩⟩

end World

end Service
end BeautyAwg
