import BeautyAwg.Lib.Requests
import BeautyAwg.Store.GrantCalls

/-!
# `Web.Groups`: a device joins a group

The group functions of `web/app/lib/groups.ts` and the map's `joinGroup`, which sends the panel one
request after another and stops at the first that is answered with an error. The server is the store; the
`granted_nodes` that the map holds for each device are an argument. The group's entry in the saved layout
and the messages to the user are left out.

## Contents
- **Plans.** `groupGrants`, `syncPlan`; a `Set` of the source is a list without repetitions, in the order
  of insertion.
- **Requests.** `grant`, `revoke`, `getGrantExit`, …, `copyAccess`, `joinGroup`.
-/

namespace BeautyAwg
namespace Web

open Store

/-! ## Plans -/

/-- What a group grants: the union of what its members are granted. -/
def groupGrants (members : List Uuid) (granted : Uuid → List Uuid) : List Uuid :=
  (members.flatMap granted).eraseDups

/-- What a device that joins a group has to be granted, and what it has to lose. -/
structure SyncPlan where
  add : List Uuid
  remove : List Uuid
  deriving DecidableEq, Repr

/-- What has to change for `current` to become `target`. -/
def syncPlan (target current : List Uuid) : SyncPlan where
  add := target.eraseDups.filter fun n => n ∉ current
  remove := current.eraseDups.filter fun n => n ∉ target

/-! ## Requests -/

/-- A series of requests to the panel. -/
abbrev Api := Requests StoreErr Db

/-- A store call behind a request. -/
def call (op : Op) : Api Unit := Requests.call fun db => (Txn.run apply op.body db).map Prod.snd

/-- `POST` of a grant. -/
def grant (clientId nodeId : Uuid) : Api Unit := call (.setGrant clientId nodeId)

/-- `DELETE` of a grant. -/
def revoke (clientId nodeId : Uuid) : Api Unit := call (.deleteGrant clientId nodeId)

/-- `GET` of a grant's exit. -/
def getGrantExit (clientId nodeId : Uuid) : Api Bool := Requests.query (grantExit clientId nodeId)

/-- `GET` of a grant's rules. -/
def getGrantRules (clientId nodeId : Uuid) : Api (List RuleDTO) :=
  Requests.query fun db => .ok (grantRules clientId nodeId db)

/-- `PUT` of a grant's exit. -/
def setGrantExit (clientId nodeId : Uuid) (exit : Bool) : Api Unit := call (.setGrantExit clientId nodeId exit)

/-- `PUT` of a grant's rules. -/
def setGrantRules (clientId nodeId : Uuid) (rules : List RuleDTO) : Api Unit :=
  call (.setGrantRules clientId nodeId rules)

/-- How the device reaches one location is copied from the first member that reaches it. -/
def copyAccess (granted : Uuid → List Uuid) (members : List Uuid) (clientId nodeId : Uuid) : Api Unit :=
  match members.find? fun m => nodeId ∈ granted m with
  | none => pure ()
  | some rep => do
    let exit ← getGrantExit rep nodeId
    let rules ← getGrantRules rep nodeId
    setGrantExit clientId nodeId exit
    setGrantRules clientId nodeId rules

/-- The locations a device that joins is to reach: the group's, or its own if it is the first member. -/
def joinTarget (granted : Uuid → List Uuid) (members : List Uuid) (clientId : Uuid) : List Uuid :=
  if members = [] then granted clientId else groupGrants members granted

/-- Brings a device's access in line with the group it landed in. -/
def joinGroup (granted : Uuid → List Uuid) (members : List Uuid) (clientId : Uuid) : Api Unit := do
  let target := joinTarget granted members clientId
  let plan := syncPlan target (granted clientId)
  forM plan.add (grant clientId)
  forM plan.remove (revoke clientId)
  forM target (copyAccess granted members clientId)

end Web
end BeautyAwg
