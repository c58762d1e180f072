import Mathlib.Data.List.Find
import BeautyAwg.Lib.Rows
import BeautyAwg.Lib.Txn
import BeautyAwg.Lib.Unicode
import BeautyAwg.Lib.Nft
import BeautyAwg.Store.Schema

/-!
# `Store.Ops`: the store's transactions

The mutating calls of `internal/store` as transaction bodies, statement by statement. Row ids and tokens
that the source draws at random are arguments, and so is which of several rows a query without an order
returns first. Of the locks only the advisory one and those of
`SELECT … FOR UPDATE` are taken; the row locks of updates and deletes are left out, which allows more
interleavings than the server does.

## Contents
- **Addresses.** `lastAddr`, `allocLoop`, `allocateIP`.
- **Bodies.** One definition per store call, then `Op` and `Op.body`.
- **Writes.** `Op.Writes` lists what each call can write; `body_allWrites`.
- **Alone.** What the parts of a body do when nothing runs beside them.
-/

namespace BeautyAwg
namespace Store

open Netip Awg

/-- The advisory lock of `AllocateIP`, or a node's row lock. -/
inductive Lock where
  | alloc
  | node (id : Uuid)
  deriving DecidableEq, Repr

/-- A transaction of the store. -/
abbrev Tx := Txn Db Write Lock StoreErr

/-! ## Addresses -/

/-- The highest address in a prefix. The source works on four bytes and panics on what has none. -/
def lastAddr (p : Prefix) : Option Addr :=
  p.masked.addr.as4.map fun a => .v4 (a ||| (BitVec.ofNat 32 (2 ^ (32 - p.bits) - 1)))

/-- The loop of `AllocateIP` from `a`, with fuel. -/
def allocLoop (pool : Prefix) (broadcast : Addr) (used : List Addr) : Nat → Addr → Option Addr
  | 0, _ => none
  | fuel + 1, a =>
    if a.isValid ∧ pool.contains a then
      if a = broadcast ∨ a ∈ used then allocLoop pool broadcast used fuel a.next else some a
    else none

/-- The lowest free host address of the hub pool. -/
def allocateIP : Tx Addr := do
  Txn.acquire .alloc
  let hub ← Txn.read fun db => db.hub
  let held ← Txn.read fun db => db.heldAddrs
  let broadcast ← Txn.orFail .panic (lastAddr hub.poolCIDR)
  Txn.orFail (.text ("pool " ++ hub.poolCIDR.text ++ " exhausted"))
    (allocLoop hub.poolCIDR broadcast (hub.address :: held)
      (2 ^ (hub.poolCIDR.addr.bitLen - hub.poolCIDR.bits)) hub.poolCIDR.masked.addr.next)

/-! ## Nodes and clients -/

/-- The subnets of a new node, one by one. -/
def insertSubnets (id : Uuid) (subnets : List Prefix) : Tx Unit :=
  Txn.writes (subnets.map fun s => .insertSubnet ⟨id, s⟩)

/-- No text column takes a NUL character. -/
def isText (s : String) : Bool := s.toList.all fun c => c ≠ Char.ofNat 0

/-- The server refuses a statement if a text of the request in it has a NUL character. Keys and tokens that the
    panel draws have none. -/
def checkText (texts : List String) : Tx Unit :=
  Txn.orFail .constraint (if texts.all isText then some () else none)

/-- `SELECT … FOR UPDATE`: what matches is locked, and read again once the locks are held. The caller takes
    the row that comes first. -/
def lockNode (p : NodeRow → Bool) (pick : Nat) : Tx (Option NodeRow) := do
  let found ← Txn.read fun db => (db.nodes.filter p).map NodeRow.id
  Txn.acquireAll (found.map .node)
  Txn.read fun db => anyRow pick (db.nodes.filter fun n => n.id ∈ found ∧ p n)

/-- The row `CreateNode` inserts. -/
def createdNode (id : Uuid) (name lanIface : String) (keys : Keypair) (psk : String) (a : Addr) : NodeRow :=
  ⟨id, name, some a, lanIface, keys, psk, .active, none, "", false, "", ""⟩

/-- The row `CreateClient` inserts. -/
def createdClient (id : Uuid) (name dns : String) (keys : Keypair) (psk : String) (a : Addr) : ClientRow :=
  ⟨id, name, a, keys, psk, dns, true, ""⟩

/-- `CreateNode`: the lowest free address, the row, the subnets. -/
def createNode (id : Uuid) (name lanIface : String) (subnets : List Prefix) (keys : Keypair)
    (psk : String) : Tx Addr := do
  let a ← allocateIP
  checkText [name, lanIface]
  Txn.write (.insertNode (createdNode id name lanIface keys psk a))
  insertSubnets id subnets
  pure a

/-- `CreateClient`: the lowest free address, and the row. -/
def createClient (id : Uuid) (name dns : String) (keys : Keypair) (psk : String) : Tx Addr := do
  let a ← allocateIP
  checkText [name, dns]
  Txn.write (.insertClient (createdClient id name dns keys psk a))
  pure a

/-- A text that may be missing or empty, or else another. -/
def derefOr (p : Option String) (default : String) : String :=
  match p with
  | some s => if s ≠ "" then s else default
  | none => default

/-- The status a node has after it announced itself again. -/
def reannounced (status : NodeStatus) : NodeStatus := if status = .rejected then .pending else status

/-- The row `EnrollNode` inserts for a public key it does not know. -/
def enrolledNode (id : Uuid) (newToken name hostname lanIface pubkey : String) : NodeRow :=
  ⟨id, name, none, lanIface, ⟨"", pubkey⟩, "", .pending, some newToken, hostname, false, "", ""⟩

/-- What an announcement changes in the row of a known node. -/
def announce (token hostname lanIface : String) (n : NodeRow) : NodeRow :=
  { n with
    enrollToken := some token
    hostname := hostname
    lanIface := lanIface
    status := reannounced n.status }

/-- What an approval changes. -/
def activate (a : Addr) (n : NodeRow) : NodeRow := { n with address := some a, status := .active }

/-- What a rejection changes. -/
def reject (n : NodeRow) : NodeRow := { n with status := .rejected }

/-- Replaces a node's subnets by the announced ones, if there are any. -/
def replaceSubnets (id : Uuid) (subnets : List Prefix) : Tx Unit :=
  if subnets = [] then pure ()
  else Txn.stmt (fun db => (db.subnets.filter fun s => s.nodeId = id).map .deleteSubnet) fun _ =>
    insertSubnets id subnets

/-- A known node announces itself again. -/
def reenrollNode (r : NodeRow) (newToken hostname lanIface : String) (subnets : List Prefix) :
    Tx (String × NodeStatus) := do
  let token := derefOr r.enrollToken newToken
  checkText [hostname, lanIface]
  Txn.write (.updateNode r.id (announce token hostname lanIface))
  replaceSubnets r.id subnets
  pure (token, reannounced r.status)

/-- A node announces itself for the first time. -/
def registerNode (id : Uuid) (newToken name hostname lanIface pubkey : String) (subnets : List Prefix) :
    Tx (String × NodeStatus) := do
  checkText [name, hostname, lanIface]
  Txn.write (.insertNode (enrolledNode id newToken name hostname lanIface pubkey))
  insertSubnets id subnets
  pure (newToken, .pending)

/-- Registers or re-registers a node; its public key is its identity. Several rows can have the key, and then
    any of them is the one that announces itself again. -/
def enrollNode (id : Uuid) (newToken name hostname lanIface pubkey : String) (subnets : List Prefix)
    (pick : Nat) : Tx (String × NodeStatus) := do
  checkText [pubkey]
  match ← lockNode (fun n => n.keys.pub = pubkey) pick with
  | some r => reenrollNode r newToken hostname lanIface subnets
  | none => registerNode id newToken name hostname lanIface pubkey subnets

/-- `ApproveNode`: the row is locked; a node that is active with an address stays as it is. -/
def approveNode (id : Uuid) : Tx Unit := do
  let row ← lockNode (fun n => n.id = id) 0
  let n ← Txn.orFail .noRows row
  if n.status = .active ∧ n.address ≠ none then pure ()
  else
    let a ← allocateIP
    Txn.write (.updateNode id (activate a))

/-- `RejectNode`: whatever the node's status is, its address stays. -/
def rejectNode (id : Uuid) : Tx Unit := do
  let rows ← Txn.exec (.updateNode id reject) fun db => db.nodes.filter fun n => n.id = id
  if rows = [] then Txn.fail (.text "node not found") else pure ()

/-- `DeleteNode`, with what hangs on the row. -/
def deleteNode (id : Uuid) : Tx Unit := Txn.write (.deleteNode id)

/-- The virtual node that stands for the hub as an internet exit. -/
def hubNode (id : Uuid) (address : Addr) : NodeRow :=
  ⟨id, "panel (internet exit)", some address, "", ⟨"", ""⟩, "", .active, none, "", true, "", ""⟩

/-- `EnsureHubNode`: the hub's own row, if there is none, with the whole internet as its subnet. -/
def ensureHubNode (id : Uuid) : Tx Unit := do
  let present ← Txn.read fun db => db.nodes.any NodeRow.isHub
  if present then pure ()
  else
    let address ← Txn.read fun db => db.hub.address
    Txn.write (.insertNode (hubNode id address))
    insertSubnets id [⟨.v4 0, 0⟩]

/-- `RenameNode`; another node's name is refused by the constraint. -/
def renameNode (id : Uuid) (name : String) : Tx Unit := do
  checkText [name]
  Txn.write (.updateNode id fun n => { n with name := name })

/-- `SetNodeDNS`: any text. -/
def setNodeDNS (id : Uuid) (dns : String) : Tx Unit := do
  checkText [dns]
  Txn.write (.updateNode id fun n => { n with dns := dns })

/-- A bare `#rrggbb`. -/
def isHexColor (color : String) : Bool :=
  match color.toList with
  | '#' :: cs => cs.length = 6 ∧ cs.all fun c =>
      ('0' ≤ c ∧ c ≤ '9') ∨ ('a' ≤ c ∧ c ≤ 'f') ∨ ('A' ≤ c ∧ c ≤ 'F')
  | _ => false

/-- The empty text stands for no colour. -/
def checkColor (color : String) : Tx Unit :=
  if color ≠ "" ∧ ¬ isHexColor color then Txn.fail (.text "color must be empty or #rrggbb") else pure ()

/-- `SetNodeColor`. -/
def setNodeColor (id : Uuid) (color : String) : Tx Unit := do
  checkColor color
  Txn.write (.updateNode id fun n => { n with color := color })

/-- `DeleteClient`, with what hangs on the row. -/
def deleteClient (id : Uuid) : Tx Unit := Txn.write (.deleteClient id)

/-- `UpdateClient`: both fields at once. -/
def updateClient (id : Uuid) (enabled : Bool) (dns : String) : Tx Unit := do
  checkText [dns]
  Txn.write (.updateClient id fun c => { c with enabled := enabled, dns := dns })

/-- `RenameClient`; two clients can have one name. -/
def renameClient (id : Uuid) (name : String) : Tx Unit := do
  checkText [name]
  Txn.write (.updateClient id fun c => { c with name := name })

/-- `SetClientColor`. -/
def setClientColor (id : Uuid) (color : String) : Tx Unit := do
  checkColor color
  Txn.write (.updateClient id fun c => { c with color := color })

/-! ### Domains -/

/-- `unicode.IsSpace`. -/
def isSpace (c : Char) : Bool :=
  c.toNat ∈ [9, 10, 11, 12, 13, 32, 0x85, 0xa0, 0x1680, 0x2028, 0x2029, 0x202f, 0x205f, 0x3000] ∨
    (0x2000 ≤ c.toNat ∧ c.toNat ≤ 0x200a)

/-- `strings.TrimSpace`. -/
def trimSpace (cs : List Char) : List Char :=
  ((cs.dropWhile isSpace).reverse.dropWhile isSpace).reverse

/-- The zone a domain entry means: without a final dot, blanks around it or a leading `*.`, and in lower
    case. -/
def normalDomain (domain : String) : String :=
  let cs := if domain.toList.getLast? = some '.' then domain.toList.dropLast else domain.toList
  let cs := (trimSpace cs).map Unicode.toLower
  String.ofList (if "*.".toList.isPrefixOf cs then cs.drop 2 else cs)

/-- The zones of a list of entries. -/
def normalDomains (domains : List String) : List String :=
  (domains.map normalDomain).filter fun d => d ≠ "" ∧ d ≠ "*"

/-- Replaces a node's domains. -/
def setNodeDomains (id : Uuid) (domains : List String) : Tx Unit :=
  Txn.stmt (fun db => (db.domains.filter fun d => d.nodeId = id).map .deleteDomain) fun _ => do
    checkText (normalDomains domains)
    Txn.writes ((normalDomains domains).map fun d => .insertDomain ⟨id, d⟩)

/-! ## Grants -/

/-- The HTTP shape of a grant rule. -/
structure RuleDTO where
  dest : String
  proto : String
  portFrom : Int
  portTo : Int
  deriving DecidableEq, Repr

/-- A port of zero is stored as none. -/
def nullIfZero (n : Int) : Option Int := if n = 0 then none else some n

/-- `SetGrant`; a grant that is there stays as it is. -/
def setGrant (clientId nodeId : Uuid) : Tx Unit := Txn.write (.insertGrant ⟨clientId, nodeId, false⟩)

/-- `DeleteGrant`, with its rules. -/
def deleteGrant (clientId nodeId : Uuid) : Tx Unit := Txn.write (.deleteGrant (clientId, nodeId))

/-- The client is granted the node. -/
def grantExists (clientId nodeId : Uuid) (db : Db) : Bool :=
  db.grants.any fun g => g.key = (clientId, nodeId)

/-- The checks and the insert of each rule in turn. -/
def insertRules (clientId nodeId : Uuid) : List RuleDTO → Tx Unit
  | [] => pure ()
  | r :: rs => do
    let dest ← Txn.orFail (.text ("bad dest " ++ Nft.quote r.dest)) (parsePrefix r.dest)
    if r.proto ≠ "any" ∧ r.proto ≠ "tcp" ∧ r.proto ≠ "udp" then
      Txn.fail (.text ("bad proto " ++ Nft.quote r.proto))
    else
      Txn.write (.insertRule ⟨clientId, nodeId, dest, r.proto, nullIfZero r.portFrom, nullIfZero r.portTo⟩)
      insertRules clientId nodeId rs

/-- Replaces the rules of a grant that exists. The destinations are compared with nothing. -/
def setGrantRules (clientId nodeId : Uuid) (rules : List RuleDTO) : Tx Unit := do
  let exist ← Txn.read (grantExists clientId nodeId)
  if exist then
    Txn.stmt (fun db => (db.grantRules.filter fun r => r.key = (clientId, nodeId)).map .deleteRule)
      fun _ => insertRules clientId nodeId rules
  else Txn.fail (.text "grant does not exist")

/-- The names of the other nodes the device already exits through. -/
def otherExits (clientId nodeId : Uuid) (db : Db) : List String :=
  (db.grants.filter fun g => g.exit ∧ g.clientId = clientId ∧ g.nodeId ≠ nodeId).flatMap fun g =>
    (db.nodes.filter fun n => n.id = g.nodeId).map NodeRow.name

/-- What a second exit of a device is refused with. -/
def exitTaken (otherName : String) : StoreErr :=
  .text ("this device already sends all traffic through " ++ Nft.quote otherName ++
    " — a device can use only one internet exit at a time")

/-- A device that is to exit through this node must not exit through another. -/
def refuseOtherExit (clientId nodeId : Uuid) (exit : Bool) : Tx Unit :=
  if exit then do
    match ← Txn.read (otherExits clientId nodeId) with
    | otherName :: _ => Txn.fail (exitTaken otherName)
    | [] => pure ()
  else pure ()

/-- Toggles internet exit for a grant. The check and the update are two statements, and no lock is taken
    on the device. -/
def setGrantExit (clientId nodeId : Uuid) (exit : Bool) : Tx Unit := do
  let (exist, isHub) ← Txn.read fun db =>
    (grantExists clientId nodeId db, db.nodes.any fun n => n.id = nodeId ∧ n.isHub)
  if ¬ exist then Txn.fail (.text "grant does not exist")
  else if isHub then Txn.fail (.text "the internet-exit hub node is already a full-tunnel exit")
  else
    refuseOtherExit clientId nodeId exit
    Txn.write (.setExit (clientId, nodeId) exit)

/-! ## Links -/

/-- The `is_hub` flag and the subnets of an active node. -/
def nodeMeta (db : Db) (id : Uuid) : Option (Bool × List Prefix) :=
  (db.nodes.find? fun n => n.id = id ∧ n.status = .active).map fun n => (n.isHub, db.subnetsOf id)

/-- What a link of overlapping sites is refused with. -/
def subnetsOverlap (a b : Prefix) : StoreErr :=
  .text ("subnets overlap (" ++ a.text ++ " vs " ++ b.text ++
    "): node-to-node routing has no NAT to disambiguate")

/-- The first overlapping pair of the double loop. -/
def overlapping (src dst : List Prefix) : Option (Prefix × Prefix) :=
  (src.flatMap fun a => dst.map fun b => (a, b)).find? fun (a, b) => a.overlaps b

/-- `SetNodeLink`: the checks read one state, and the insert comes in a statement of its own. -/
def setNodeLink (srcId dstId : Uuid) : Tx Unit := do
  if srcId = dstId then Txn.fail (.text "a node cannot link to itself")
  else
    match ← Txn.read fun db => (nodeMeta db srcId, nodeMeta db dstId) with
    | (some (srcHub, src), some (dstHub, dst)) =>
      if srcHub ∨ dstHub then
        Txn.fail (.text "the internet-exit hub node cannot be part of a site-to-site link")
      else if src = [] ∨ dst = [] then
        Txn.fail (.text "both nodes must have at least one LAN subnet")
      else
        match overlapping src dst with
        | some (a, b) => Txn.fail (subnetsOverlap a b)
        | none => Txn.write (.insertLink ⟨srcId, dstId⟩)
    | _ => Txn.fail (.text "both nodes must exist and be active")

/-- `DeleteNodeLink`; a link that is not there is none to delete. -/
def deleteNodeLink (srcId dstId : Uuid) : Tx Unit := Txn.write (.deleteLink ⟨srcId, dstId⟩)

/-! ## Operations -/

/-- A store call with its arguments. -/
inductive Op where
  | createNode (id : Uuid) (name lanIface : String) (subnets : List Prefix) (keys : Keypair) (psk : String)
  | createClient (id : Uuid) (name dns : String) (keys : Keypair) (psk : String)
  | enrollNode (id : Uuid) (newToken name hostname lanIface pubkey : String) (subnets : List Prefix)
    (pick : Nat)
  | approveNode (id : Uuid)
  | rejectNode (id : Uuid)
  | deleteNode (id : Uuid)
  | ensureHubNode (id : Uuid)
  | renameNode (id : Uuid) (name : String)
  | setNodeDNS (id : Uuid) (dns : String)
  | setNodeColor (id : Uuid) (color : String)
  | setNodeDomains (id : Uuid) (domains : List String)
  | deleteClient (id : Uuid)
  | updateClient (id : Uuid) (enabled : Bool) (dns : String)
  | renameClient (id : Uuid) (name : String)
  | setClientColor (id : Uuid) (color : String)
  | setGrant (clientId nodeId : Uuid)
  | deleteGrant (clientId nodeId : Uuid)
  | setGrantRules (clientId nodeId : Uuid) (rules : List RuleDTO)
  | setGrantExit (clientId nodeId : Uuid) (exit : Bool)
  | setNodeLink (srcId dstId : Uuid)
  | deleteNodeLink (srcId dstId : Uuid)
  deriving DecidableEq, Repr

/-- The transaction of a call, without its result. -/
def Op.body : Op → Tx Unit
  | createNode id name lanIface subnets keys psk =>
    Store.createNode id name lanIface subnets keys psk >>= fun _ => pure ()
  | createClient id name dns keys psk => Store.createClient id name dns keys psk >>= fun _ => pure ()
  | enrollNode id newToken name hostname lanIface pubkey subnets pick =>
    Store.enrollNode id newToken name hostname lanIface pubkey subnets pick >>= fun _ => pure ()
  | approveNode id => Store.approveNode id
  | rejectNode id => Store.rejectNode id
  | deleteNode id => Store.deleteNode id
  | ensureHubNode id => Store.ensureHubNode id
  | renameNode id name => Store.renameNode id name
  | setNodeDNS id dns => Store.setNodeDNS id dns
  | setNodeColor id color => Store.setNodeColor id color
  | setNodeDomains id domains => Store.setNodeDomains id domains
  | deleteClient id => Store.deleteClient id
  | updateClient id enabled dns => Store.updateClient id enabled dns
  | renameClient id name => Store.renameClient id name
  | setClientColor id color => Store.setClientColor id color
  | setGrant clientId nodeId => Store.setGrant clientId nodeId
  | deleteGrant clientId nodeId => Store.deleteGrant clientId nodeId
  | setGrantRules clientId nodeId rules => Store.setGrantRules clientId nodeId rules
  | setGrantExit clientId nodeId exit => Store.setGrantExit clientId nodeId exit
  | setNodeLink srcId dstId => Store.setNodeLink srcId dstId
  | deleteNodeLink srcId dstId => Store.deleteNodeLink srcId dstId

/-! ## What a call writes -/

/-- The writes a call can make. -/
inductive Op.Writes : Op → Write → Prop
  | createNode {id name lanIface subnets keys psk} (a : Addr) :
    Writes (.createNode id name lanIface subnets keys psk)
      (.insertNode (createdNode id name lanIface keys psk a))
  | createNode_subnet {id name lanIface subnets keys psk s} (hs : s ∈ subnets) :
    Writes (.createNode id name lanIface subnets keys psk) (.insertSubnet ⟨id, s⟩)
  | createClient {id name dns keys psk} (a : Addr) :
    Writes (.createClient id name dns keys psk) (.insertClient (createdClient id name dns keys psk a))
  | enrollNode {id newToken name hostname lanIface pubkey subnets pick} :
    Writes (.enrollNode id newToken name hostname lanIface pubkey subnets pick)
      (.insertNode (enrolledNode id newToken name hostname lanIface pubkey))
  | enrollNode_known {id newToken name hostname lanIface pubkey subnets pick} (known : Uuid) (token : String) :
    Writes (.enrollNode id newToken name hostname lanIface pubkey subnets pick)
      (.updateNode known (announce token hostname lanIface))
  | enrollNode_drop {id newToken name hostname lanIface pubkey subnets pick} (s : SubnetRow) :
    Writes (.enrollNode id newToken name hostname lanIface pubkey subnets pick) (.deleteSubnet s)
  | enrollNode_subnet {id newToken name hostname lanIface pubkey subnets pick} (known : Uuid) {s : Prefix}
      (hs : s ∈ subnets) :
    Writes (.enrollNode id newToken name hostname lanIface pubkey subnets pick) (.insertSubnet ⟨known, s⟩)
  | approveNode {id} (a : Addr) : Writes (.approveNode id) (.updateNode id (activate a))
  | rejectNode {id} : Writes (.rejectNode id) (.updateNode id reject)
  | deleteNode {id} : Writes (.deleteNode id) (.deleteNode id)
  | ensureHubNode {id} (a : Addr) : Writes (.ensureHubNode id) (.insertNode (hubNode id a))
  | ensureHubNode_subnet {id} : Writes (.ensureHubNode id) (.insertSubnet ⟨id, ⟨.v4 0, 0⟩⟩)
  | renameNode {id name} :
    Writes (.renameNode id name) (.updateNode id fun n => { n with name := name })
  | setNodeDNS {id dns} : Writes (.setNodeDNS id dns) (.updateNode id fun n => { n with dns := dns })
  | setNodeColor {id color} :
    Writes (.setNodeColor id color) (.updateNode id fun n => { n with color := color })
  | setNodeDomains_drop {id domains} (d : DomainRow) : Writes (.setNodeDomains id domains) (.deleteDomain d)
  | setNodeDomains {id domains} (d : String) : Writes (.setNodeDomains id domains) (.insertDomain ⟨id, d⟩)
  | deleteClient {id} : Writes (.deleteClient id) (.deleteClient id)
  | updateClient {id enabled dns} :
    Writes (.updateClient id enabled dns) (.updateClient id fun c => { c with enabled := enabled, dns := dns })
  | renameClient {id name} :
    Writes (.renameClient id name) (.updateClient id fun c => { c with name := name })
  | setClientColor {id color} :
    Writes (.setClientColor id color) (.updateClient id fun c => { c with color := color })
  | setGrant {clientId nodeId} : Writes (.setGrant clientId nodeId) (.insertGrant ⟨clientId, nodeId, false⟩)
  | deleteGrant {clientId nodeId} : Writes (.deleteGrant clientId nodeId) (.deleteGrant (clientId, nodeId))
  | setGrantRules_drop {clientId nodeId rules} (r : RuleRow) :
    Writes (.setGrantRules clientId nodeId rules) (.deleteRule r)
  | setGrantRules {clientId nodeId rules} {r : RuleDTO} {dest : Prefix} (hr : r ∈ rules)
      (hdest : parsePrefix r.dest = some dest) :
    Writes (.setGrantRules clientId nodeId rules)
      (.insertRule ⟨clientId, nodeId, dest, r.proto, nullIfZero r.portFrom, nullIfZero r.portTo⟩)
  | setGrantExit {clientId nodeId exit} :
    Writes (.setGrantExit clientId nodeId exit) (.setExit (clientId, nodeId) exit)
  | setNodeLink {srcId dstId} : Writes (.setNodeLink srcId dstId) (.insertLink ⟨srcId, dstId⟩)
  | deleteNodeLink {srcId dstId} : Writes (.deleteNodeLink srcId dstId) (.deleteLink ⟨srcId, dstId⟩)

section BodyWrites

open Txn

variable {P : Write → Prop}

theorem allWrites_allocateIP : AllWrites P allocateIP :=
  allWrites_bind (allWrites_acquire _) fun _ => allWrites_bind (allWrites_read _) fun _ =>
    allWrites_bind (allWrites_read _) fun _ => allWrites_bind (allWrites_orFail _ _) fun _ =>
      allWrites_orFail _ _

theorem allWrites_checkText {texts : List String} : AllWrites P (checkText texts) := allWrites_orFail _ _

/-- A write behind the check of its texts. -/
theorem allWrites_checked {texts : List String} {w : Write} (h : P w) :
    AllWrites P (checkText texts >>= fun _ => Txn.write w : Tx Unit) :=
  allWrites_bind allWrites_checkText fun _ => allWrites_write h

theorem allWrites_lockNode {p : NodeRow → Bool} {pick : Nat} : AllWrites P (lockNode p pick) :=
  allWrites_bind (allWrites_read _) fun _ => allWrites_bind (allWrites_acquireAll _) fun _ =>
    allWrites_read _

theorem allWrites_insertSubnets {id : Uuid} {subnets : List Prefix}
    (h : ∀ s ∈ subnets, P (.insertSubnet ⟨id, s⟩)) : AllWrites P (insertSubnets id subnets) := by
  refine allWrites_writes fun x hx => ?_
  obtain ⟨s, hs, rfl⟩ := List.mem_map.mp hx
  exact h s hs

theorem allWrites_checkColor {color : String} : AllWrites P (checkColor color) := by
  unfold checkColor
  split <;> trivial

/-- A statement that makes one write for each of the rows it sees. -/
theorem allWrites_each {α : Type} {f : Db → List α} {g : α → Write} {k : Tx Unit} (hg : ∀ a, P (g a))
    (hk : AllWrites P k) : AllWrites P (stmt (fun db => (f db).map g) fun _ => k) := by
  refine ⟨fun v x hx => ?_, fun _ => hk⟩
  obtain ⟨a, -, rfl⟩ := List.mem_map.mp hx
  exact hg a

theorem allWrites_insertRules {clientId nodeId : Uuid} {rules : List RuleDTO}
    (h : ∀ r ∈ rules, ∀ dest, parsePrefix r.dest = some dest → P (.insertRule
      ⟨clientId, nodeId, dest, r.proto, nullIfZero r.portFrom, nullIfZero r.portTo⟩)) :
    AllWrites P (insertRules clientId nodeId rules) := by
  induction rules with
  | nil => trivial
  | cons r rs ih =>
    refine allWrites_orFail_bind fun dest hd => ?_
    split
    · trivial
    · exact allWrites_bind (allWrites_write (h r List.mem_cons_self dest hd)) fun _ =>
        ih fun r' hr' => h r' (List.mem_cons_of_mem _ hr')

theorem allWrites_reenrollNode {r : NodeRow} {newToken hostname lanIface : String} {subnets : List Prefix}
    (hupdate : P (.updateNode r.id (announce (derefOr r.enrollToken newToken) hostname lanIface)))
    (hdrop : ∀ s, P (.deleteSubnet s)) (hsubnet : ∀ s ∈ subnets, P (.insertSubnet ⟨r.id, s⟩)) :
    AllWrites P (reenrollNode r newToken hostname lanIface subnets) := by
  refine allWrites_bind allWrites_checkText fun _ => allWrites_bind (allWrites_write hupdate) fun _ =>
    allWrites_bind ?_ fun _ => trivial
  unfold replaceSubnets
  split
  · trivial
  · exact allWrites_each hdrop (allWrites_insertSubnets hsubnet)

theorem allWrites_registerNode {id : Uuid} {newToken name hostname lanIface pubkey : String}
    {subnets : List Prefix}
    (hinsert : P (.insertNode (enrolledNode id newToken name hostname lanIface pubkey)))
    (hsubnet : ∀ s ∈ subnets, P (.insertSubnet ⟨id, s⟩)) :
    AllWrites P (registerNode id newToken name hostname lanIface pubkey subnets) :=
  allWrites_bind allWrites_checkText fun _ => allWrites_bind (allWrites_write hinsert) fun _ =>
    allWrites_bind (allWrites_insertSubnets hsubnet) fun _ => trivial

theorem allWrites_enrollNode {id : Uuid} {newToken name hostname lanIface pubkey : String}
    {subnets : List Prefix} {pick : Nat} :
    AllWrites (Op.Writes (.enrollNode id newToken name hostname lanIface pubkey subnets pick))
      (enrollNode id newToken name hostname lanIface pubkey subnets pick) := by
  refine allWrites_bind allWrites_checkText fun _ => allWrites_bind allWrites_lockNode fun found => ?_
  cases found with
  | some r =>
    exact allWrites_reenrollNode (.enrollNode_known _ _) (fun s => .enrollNode_drop s)
      fun s hs => .enrollNode_subnet _ hs
  | none => exact allWrites_registerNode .enrollNode fun s hs => .enrollNode_subnet _ hs

theorem allWrites_setNodeLink {srcId dstId : Uuid} :
    AllWrites (Op.Writes (.setNodeLink srcId dstId)) (setNodeLink srcId dstId) := by
  unfold setNodeLink
  split
  · trivial
  · refine allWrites_bind (allWrites_read _) fun found => ?_
    split
    · split
      · trivial
      · split
        · trivial
        · split
          · trivial
          · exact allWrites_write .setNodeLink
    · trivial

theorem allWrites_setGrantExit {clientId nodeId : Uuid} {exit : Bool} :
    AllWrites (Op.Writes (.setGrantExit clientId nodeId exit)) (setGrantExit clientId nodeId exit) := by
  refine allWrites_bind (allWrites_read _) fun ⟨exist, isHub⟩ => ?_
  dsimp only
  split
  · trivial
  · split
    · trivial
    · refine allWrites_bind ?_ fun _ => allWrites_write .setGrantExit
      unfold refuseOtherExit
      split
      · refine allWrites_bind (allWrites_read _) fun names => ?_
        cases names <;> trivial
      · trivial

/-- **What a call writes.** Every write of a body is one of its call's. -/
theorem body_allWrites (op : Op) : AllWrites op.Writes op.body := by
  cases op with
  | createNode id name lanIface subnets keys psk =>
    refine allWrites_bind (allWrites_bind allWrites_allocateIP fun a => ?_) fun _ => trivial
    exact allWrites_bind allWrites_checkText fun _ => allWrites_bind (allWrites_write (.createNode a)) fun _ =>
      allWrites_bind (allWrites_insertSubnets fun s hs => .createNode_subnet hs) fun _ => trivial
  | createClient id name dns keys psk =>
    refine allWrites_bind (allWrites_bind allWrites_allocateIP fun a => ?_) fun _ => trivial
    exact allWrites_bind allWrites_checkText fun _ =>
      allWrites_bind (allWrites_write (.createClient a)) fun _ => trivial
  | enrollNode id newToken name hostname lanIface pubkey subnets pick =>
    exact allWrites_bind allWrites_enrollNode fun _ => trivial
  | approveNode id =>
    refine allWrites_bind allWrites_lockNode fun row => allWrites_orFail_bind fun n _ => ?_
    split
    · trivial
    · exact allWrites_bind allWrites_allocateIP fun a => allWrites_write (.approveNode a)
  | rejectNode id =>
    refine allWrites_bind (allWrites_exec .rejectNode _) fun rows => ?_
    split <;> trivial
  | deleteNode id => exact allWrites_write .deleteNode
  | ensureHubNode id =>
    refine allWrites_bind (allWrites_read _) fun present => ?_
    split
    · trivial
    · refine allWrites_bind (allWrites_read _) fun a => allWrites_bind (allWrites_write (.ensureHubNode a))
        fun _ => allWrites_insertSubnets fun s hs => ?_
      rw [List.mem_singleton.mp hs]
      exact .ensureHubNode_subnet
  | renameNode id name => exact allWrites_checked .renameNode
  | setNodeDNS id dns => exact allWrites_checked .setNodeDNS
  | setNodeColor id color =>
    exact allWrites_bind allWrites_checkColor fun _ => allWrites_write .setNodeColor
  | setNodeDomains id domains =>
    refine allWrites_each (fun d => .setNodeDomains_drop d)
      (allWrites_bind allWrites_checkText fun _ => allWrites_writes fun x hx => ?_)
    obtain ⟨d, -, rfl⟩ := List.mem_map.mp hx
    exact .setNodeDomains d
  | deleteClient id => exact allWrites_write .deleteClient
  | updateClient id enabled dns => exact allWrites_checked .updateClient
  | renameClient id name => exact allWrites_checked .renameClient
  | setClientColor id color =>
    exact allWrites_bind allWrites_checkColor fun _ => allWrites_write .setClientColor
  | setGrant clientId nodeId => exact allWrites_write .setGrant
  | deleteGrant clientId nodeId => exact allWrites_write .deleteGrant
  | setGrantRules clientId nodeId rules =>
    refine allWrites_bind (allWrites_read _) fun exist => ?_
    split
    · exact allWrites_each (fun r => .setGrantRules_drop r)
        (allWrites_insertRules fun r hr dest hd => .setGrantRules hr hd)
    · trivial
  | setGrantExit clientId nodeId exit => exact allWrites_setGrantExit
  | setNodeLink srcId dstId => exact allWrites_setNodeLink
  | deleteNodeLink srcId dstId => exact allWrites_write .deleteNodeLink

end BodyWrites

/-! ## Alone -/

section Alone

open Txn

/-- The locked read finds one of the matches and changes nothing. -/
theorem run_lockNode {p : NodeRow → Bool} {pick : Nat} {db : Db} :
    run apply (lockNode p pick) db = .ok (anyRow pick (db.nodes.filter p), db) := by
  have hfind : (db.nodes.filter fun n => n.id ∈ (db.nodes.filter p).map NodeRow.id ∧ p n) =
      db.nodes.filter p := by
    refine List.filter_congr fun n hn => ?_
    by_cases hp : p n = true
    · have hmem : n.id ∈ (db.nodes.filter p).map NodeRow.id :=
        List.mem_map_of_mem (List.mem_filter.mpr ⟨hn, hp⟩)
      simp only [hmem, hp, and_self, decide_true]
    · simp [hp]
  simp only [lockNode, run_bind, run_read, run_acquireAll, hfind]

/-- What stands behind the check of its texts is refused for them, or goes its way. -/
theorem run_checkText_bind {α : Type} (db : Db) (texts : List String) (t : Tx α) :
    run apply (checkText texts >>= fun _ => t) db =
      if texts.all isText then run apply t db else .error .constraint := by
  rw [checkText, run_bind]
  by_cases h : texts.all isText = true
  · rw [if_pos h, if_pos h]
    rfl
  · rw [if_neg h, if_neg h]
    rfl

theorem run_discard {α : Type} {t : Tx α} {db db' : Db}
    (h : run apply (t >>= fun _ => pure ()) db = .ok ((), db')) : ∃ a, run apply t db = .ok (a, db') := by
  obtain ⟨a, db₁, ht, hret⟩ := run_bind_ok h
  simp only [pure_def, run_ret, Except.ok.injEq, Prod.mk.injEq, true_and] at hret
  exact ⟨a, hret ▸ ht⟩

end Alone

end Store
end BeautyAwg
