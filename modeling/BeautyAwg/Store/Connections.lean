import BeautyAwg.Lib.ConnPool
import BeautyAwg.Store.Ops

/-!
# `Store.Connections`: what the store asks of its pool

The calls of `internal/store` as the connection pool sees them. A statement on the pool takes a connection
for its own length; the rows of a query keep theirs until they are read to the end or closed; a transaction
keeps its connection from begin to commit or rollback, and its statements use that one. Which way a check or
a result goes is the outcome of a `Call.work`.
-/

namespace BeautyAwg
namespace Store

open ConnPool

/-! ## Pool operations -/

/-- `Pool.Exec`, and `Pool.QueryRow` with its `Scan`. -/
def onPool (k : Bool → Call) : Call := .take (.work fun ok => .give (k ok))

/-- `pgx.BeginFunc`. -/
def inTx (k : Bool → Call) : Call := .take (.work fun ok => .give (k ok))

/-- `Pool.Query`: where it succeeds its connection is kept. -/
def openRows (failed opened : Call) : Call := .take (.work fun ok => if ok then opened else .give failed)

/-- The loop over open rows: they are closed at their end, or by the deferred `Close` of a loop that is left. -/
def readRows (k : Bool → Call) : Call := .work fun ok => .give (k ok)

/-- A query whose rows are read at once. -/
def queryAll (k : Bool → Call) : Call := openRows (k false) (readRows k)

/-- `if err != nil { return err }`. -/
def orReturn (part : (Bool → Call) → Call) (k : Call) : Call := part fun ok => if ok then k else .ret

/-- A check that needs no connection. -/
def check (k : Bool → Call) : Call := .work k

/-! ## Calls -/

/-- `loadAllGrantRules`. -/
def loadAllGrantRules (k : Bool → Call) : Call := queryAll k

/-- `GetClientForExport`: the hub, the client, the grants' rows; the rules are loaded while these are open. -/
def getClientForExport : Call :=
  orReturn onPool <| orReturn onPool <| openRows .ret <|
    loadAllGrantRules fun ok => if ok then readRows fun _ => .ret else .give .ret

/-- `GetNodeForExport`: the hub, the node, its reach subnets. -/
def getNodeForExport : Call := orReturn onPool <| orReturn onPool <| queryAll fun _ => .ret

/-- `Snapshot`: the hub, then nodes, clients, rules, grants and links, each read before the next query. -/
def snapshotCall : Call :=
  orReturn onPool <| orReturn queryAll <| orReturn queryAll <| orReturn loadAllGrantRules <|
    orReturn queryAll <| queryAll fun _ => .ret

/-- The writing calls. -/
def Op.call : Op → Call
  | createNode .. | createClient .. | enrollNode .. | approveNode .. | setNodeDomains .. | setGrantRules ..
  | setGrantExit .. => inTx fun _ => .ret
  | ensureHubNode _ => orReturn onPool <| orReturn check <| orReturn onPool <| inTx fun _ => .ret
  | setNodeLink .. => orReturn check <| orReturn queryAll <| orReturn check <| onPool fun _ => .ret
  | setNodeColor .. | setClientColor .. => orReturn check <| onPool fun _ => .ret
  | rejectNode _ | deleteNode _ | renameNode .. | setNodeDNS .. | deleteClient _ | updateClient ..
  | renameClient .. | setGrant .. | deleteGrant .. | deleteNodeLink .. => onPool fun _ => .ret

/-- A call of the store. `touch` stands for the other writes of one statement (heartbeat, enrolment secret,
    WAN interface, layout, operators). -/
inductive StoreCall where
  | clientExport
  | nodeExport
  | snapshot
  | write (op : Op)
  | touch
  deriving DecidableEq

/-- When the call asks the pool for a connection, and when it gives one back. -/
def StoreCall.prog : StoreCall → Call
  | clientExport => getClientForExport
  | nodeExport => getNodeForExport
  | snapshot => snapshotCall
  | write op => op.call
  | touch => onPool fun _ => .ret

end Store
end BeautyAwg
