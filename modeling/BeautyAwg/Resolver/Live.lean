import BeautyAwg.Resolver.Routes
import BeautyAwg.Store.Commits

/-!
# `Resolver.Live`: queries beside the requests

The panel as the resolver sees it. Any number of requests make their store calls, statement by statement, and then
reconcile under the service mutex: when the snapshot and the applier have done their part, `DomainRoutes` is read
and `SetRoutes` replaces the routes. Queries come in at any time; `handle` takes the routes once and tries the
server it picked over UDP and, if that fails, over TCP. Requests can fail anywhere, and the panel can be restarted.

## Contents
- **Parts.** `Stage` of a request, `Query`.
- **The system.** `World`, `World.Step`, `World.boot`.
-/

namespace BeautyAwg
namespace Resolver

open Store Txn

/-! ## Parts -/

/-- What a request does next. `since` is the moment at which it got the mutex; its store calls are then in. -/
inductive Stage where
  | call (ops : List Op)
  | calling (ops : List Op)
  | reconciling (since : Nat)
  | setRoutes (since : Nat) (byDomain : List (String × String))

/-- The request has the mutex. -/
def Stage.locked : Stage → Bool
  | reconciling _ => true
  | setRoutes .. => true
  | _ => false

/-- How far `handle` is with a query: it has the routes still to take, or it has the server it picked. -/
inductive Progress where
  | asked
  | udp (up : String)
  | tcp (up : String)
  | replied (up : String)
  | failed
  deriving DecidableEq, Repr

/-- A query for a name, with the moments of the requests that had succeeded when it came in. -/
structure Query where
  name : String
  before : List Nat
  progress : Progress
  deriving DecidableEq, Repr

/-- The server that the query was sent to. -/
def Query.upstream (q : Query) : Option String :=
  match q.progress with
  | .udp up => some up
  | .tcp up => some up
  | .replied up => some up
  | _ => none

/-! ## The system -/

/-- The routes of `New`. -/
def initial : Routing := ⟨[], "1.1.1.1:53"⟩

/-- The database server with the states that were committed so far, the service mutex, the requests in progress,
    the moments of those that have succeeded since the panel was started, the routes and the queries. -/
structure World where
  sys : Server
  moments : List Db
  mutex : Option Nat
  requests : Nat → Option Stage
  succeeded : List Nat
  cur : Routing
  queries : Nat → Option Query

namespace World

/-- One request's progress. -/
def setStage (w : World) (i : Nat) (s : Option Stage) : World :=
  { w with requests := fun j => if j = i then s else w.requests j }

/-- One query's progress. -/
def setQuery (w : World) (r : Nat) (q : Option Query) : World :=
  { w with queries := fun r' => if r' = r then q else w.queries r' }

/-- The mutex when request `i` has ended. -/
def unlock (w : World) (i : Nat) : Option Nat := if w.mutex = some i then none else w.mutex

/-- One step, with `upstream` for everything that no domain captures. The routes are ranged over in any order. -/
inductive Step (upstream : String) : World → World → Prop
  | start {w : World} {i : Nat} {ops : List Op} (hfree : w.requests i = none) :
      Step upstream w (w.setStage i (some (.call ops)))
  | begin {w : World} {i : Nat} {op : Op} {ops : List Op} {sys : Server} (hi : w.requests i = some (.call (op :: ops)))
      (hfire : Txn.fire Store.apply Op.body w.sys (.start i op) = some sys) :
      Step upstream w { w.setStage i (some (.calling ops)) with sys := sys }
  | statement {w : World} {i : Nat} {ops : List Op} {t : Session Op Db Write Lock StoreErr} {sys : Server}
      (hi : w.requests i = some (.calling ops)) (ht : w.sys.sessions i = some t) (hrest : t.rest ≠ .ret ())
      (hfire : Txn.fire Store.apply Op.body w.sys (.next i) = some sys) : Step upstream w { w with sys := sys }
  | commit {w : World} {i : Nat} {ops : List Op} {t : Session Op Db Write Lock StoreErr} {sys : Server}
      (hi : w.requests i = some (.calling ops)) (ht : w.sys.sessions i = some t) (hret : t.rest = .ret ())
      (hfire : Txn.fire Store.apply Op.body w.sys (.next i) = some sys) :
      Step upstream w { w.setStage i (some (.call ops)) with sys := sys, moments := w.moments ++ [sys.committed] }
  | lock {w : World} {i since : Nat} (hi : w.requests i = some (.call [])) (hfree : w.mutex = none)
      (hnow : w.moments.length = since + 1) :
      Step upstream w { w.setStage i (some (.reconciling since)) with mutex := some i }
  | domainRoutes {w : World} {i since : Nat} {byDomain : List (String × String)}
      (hi : w.requests i = some (.reconciling since)) (hread : DomainRoutesRead w.sys.committed.toTables byDomain) :
      Step upstream w (w.setStage i (some (.setRoutes since byDomain)))
  | setRoutes {w : World} {i since : Nat} {byDomain es : List (String × String)}
      (hi : w.requests i = some (.setRoutes since byDomain)) (hes : es.Perm byDomain) :
      Step upstream w { w.setStage i none with
        mutex := w.unlock i, cur := Resolver.setRoutes es upstream, succeeded := since :: w.succeeded }
  /-- A request fails, or it is one that does not reconcile. -/
  | leave {w : World} {i : Nat} {s : Stage} (hi : w.requests i = some s) :
      Step upstream w { w.setStage i none with sys := w.sys.finish i w.sys.committed, mutex := w.unlock i }
  | restart {w : World} :
      Step upstream w { w with
        sys := Sys.idle w.sys.committed, mutex := none, requests := fun _ => none, succeeded := [], cur := initial,
        queries := fun _ => none }
  | ask {w : World} {r : Nat} {name : String} : Step upstream w (w.setQuery r (some ⟨name, w.succeeded, .asked⟩))
  | pick {w : World} {r : Nat} {q : Query} {fields : List (String × String)} (hr : w.queries r = some q)
      (hasked : q.progress = .asked) (hfields : fields.Perm w.cur.byDomain) :
      Step upstream w
        (w.setQuery r (some { q with progress := .udp (Resolver.pick ⟨fields, w.cur.upstream⟩ q.name) }))
  | retry {w : World} {r : Nat} {q : Query} {up : String} (hr : w.queries r = some q) (hudp : q.progress = .udp up) :
      Step upstream w (w.setQuery r (some { q with progress := .tcp up }))
  | reply {w : World} {r : Nat} {q : Query} {up : String} (hr : w.queries r = some q)
      (hsent : q.progress = .udp up ∨ q.progress = .tcp up) :
      Step upstream w (w.setQuery r (some { q with progress := .replied up }))
  | giveUp {w : World} {r : Nat} {q : Query} (hr : w.queries r = some q) :
      Step upstream w (w.setQuery r (some { q with progress := .failed }))

/-- Any number of steps. -/
def Steps (upstream : String) : World → World → Prop := Relation.ReflTransGen (Step upstream)

/-- The first start of the panel on a database. -/
def boot (db : Db) : World := ⟨Sys.idle db, [db], none, fun _ => none, [], initial, fun _ => none⟩

end World

end Resolver
end BeautyAwg
