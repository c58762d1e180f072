import BeautyAwg.Web.GroupEdits
import BeautyAwg.Web.SiteLinks

/-!
# `Web.MapLines`: the lines of the map

What the map draws of the panel's lists (`web/app/components/AccessGraph.tsx`), and what removing lines sends. A line
says where it runs in its id alone, and `onEdgesDelete` reads it back from there: a device's line has the two ids
with an arrow between, a group's line has the group's card in place of the device.

The ids of devices and locations are printed by `text` and read by `parse`, as the panel's handlers do. A request can
be refused, and it can be carried out and still be answered with an error, as when the hub cannot be reconciled or the
answer is lost; both end what an edge sends.

## Contents
- **Cards.** `cid`, `gid`, `unwrap`, `splitArrow`.
- **Lines.** `MapData`, `accessLines`, `lines`.
- **Removal.** `selectionAnchor`, `inSelection`, `removals`, `onEdgesDelete`.
-/

namespace BeautyAwg
namespace Web

open Store
open Requests (Fate)

/-! ## Cards -/

/-- A device's card. -/
def cid (id : String) : String := "c:" ++ id

/-- A group's card. -/
def gid (id : String) : String := "g:" ++ id

/-- The card is a group's. -/
def isGroupId (rfId : String) : Bool := "g:".toList.isPrefixOf rfId.toList

/-- The card is a device's. -/
def isClientId (rfId : String) : Bool := "c:".toList.isPrefixOf rfId.toList

/-- `slice(2)`. -/
def unwrap (rfId : String) : String := String.ofList (rfId.toList.drop 2)

/-- `split("=>")`. -/
def splitArrow : List Char → List (List Char)
  | [] => [[]]
  | '=' :: '>' :: cs => [] :: splitArrow cs
  | c :: cs =>
    match splitArrow cs with
    | [] => [[c]]
    | w :: ws => (c :: w) :: ws

/-- A part of an edge's id; one that is not there prints as `undefined`. -/
def edgePart (id : String) (i : Nat) : String := ((splitArrow id.toList).map String.ofList).getD i "undefined"

/-! ## Lines -/

/-- A device, as the panel lists it. -/
structure MapClient where
  id : Uuid
  granted : List Uuid
  deriving DecidableEq, Repr

/-- What the page holds: devices, active locations, links between locations, and groups. -/
structure MapData where
  clients : List MapClient
  servers : List Uuid
  links : List (Uuid × Uuid)
  groups : List DeviceGroup
  deriving DecidableEq, Repr

namespace MapData

/-- `grantsByClient`. Of two entries of a `Map` the later one counts. -/
def granted (p : MapData) (m : Uuid) : List Uuid :=
  ((p.clients.reverse.find? fun c => c.id = m).map MapClient.granted).getD []

/-- The groups without the devices that were deleted. -/
def liveGroups (p : MapData) : List DeviceGroup :=
  p.groups.map fun g => { g with members := g.members.filter fun m => p.clients.any fun c => c.id = m }

/-- The devices that are in no group. -/
def loose (p : MapData) : List MapClient :=
  p.clients.filter fun c => c.id ∉ p.liveGroups.flatMap DeviceGroup.members

end MapData

section Map

variable (text : Uuid → String)

/-- The line of a device's own grant. -/
def clientLine (client node : Uuid) : Rel :=
  ⟨text client ++ "=>" ++ text node, cid (text client), nid (text node), false, none⟩

/-- The line of a group's grants. -/
def groupLine (group : String) (node : Uuid) : Rel :=
  ⟨gid group ++ "=>" ++ text node, gid group, nid (text node), false, none⟩

/-- A loose device has a line to each location it may reach, a group one to each that a member may reach. -/
def accessLines (p : MapData) : List Rel :=
  (p.loose.flatMap fun c => (c.granted.filter fun n => n ∈ p.servers).map (clientLine text c.id)) ++
    p.liveGroups.flatMap fun g =>
      ((groupGrants g.members p.granted).filter fun n => n ∈ p.servers).map (groupLine text g.id)

/-- A link, with its ends as texts. -/
def siteLink (l : Uuid × Uuid) : SiteLink := ⟨text l.1, text l.2⟩

/-- All lines; `busTx` has the animations in flight. -/
def lines (busTx : List (String × BusTx)) (p : MapData) : List Rel :=
  let links := p.links.map (siteLink text)
  accessLines text p ++ relsLoop (p.servers.map text) links busTx links []

/-! ## Removal -/

/-- The card that the selection stands for: a member's lines are its group's. -/
def selectionAnchor (groups : List DeviceGroup) (selected : Option String) : Option String :=
  selected.map fun s =>
    if isClientId s then
      match groups.find? fun g => g.members.any fun m => text m = unwrap s with
      | some g => gid g.id
      | none => s
    else s

/-- Without a selection every line can be edited. -/
def inSelection (groups : List DeviceGroup) (selected : Option String) (r : Rel) : Bool :=
  (selectionAnchor text groups selected).all fun a => r.source = a ∨ r.target = a

/-- What the panel is asked to take away. -/
inductive Removal where
  | revoke (clientId nodeId : String)
  | unlink (srcId dstId : String)
  deriving DecidableEq, Repr

/-- The requests for one removed edge, in turn. -/
def removals (groups : List DeviceGroup) (r : Rel) : List Removal :=
  if isGroupId r.source then
    match groups.find? fun g => g.id = unwrap r.source with
    | none => []
    | some g => g.members.map fun m => .revoke (text m) (edgePart r.id 1)
  else if isBusEdge r.id ∨ isLinkEdge r.id then (unlinks r.id).map fun l => .unlink l.src l.dst
  else [.revoke (edgePart r.id 0) (edgePart r.id 1)]

variable (parse : String → Option Uuid)

/-- The store call of a request, if its ids can be read. -/
def Removal.op : Removal → Option Op
  | .revoke clientId nodeId => do some (.deleteGrant (← parse clientId) (← parse nodeId))
  | .unlink srcId dstId => do some (.deleteNodeLink (← parse srcId) (← parse dstId))

/-- The requests of one edge; `fate i` is that of the `i`-th. The last component says whether all went through. -/
def sendAll (fate : Nat → Fate) : Nat → List Removal → Db → Db × Bool
  | _, [], db => (db, true)
  | i, q :: qs, db =>
    match q.op parse with
    | none => (db, false)
    | some op =>
      match Txn.run apply op.body db, fate i with
      | .error _, _ => (db, false)
      | .ok _, .refused => (db, false)
      | .ok (_, db'), .unsure => (db', false)
      | .ok (_, db'), .done => sendAll fate (i + 1) qs db'

/-- The edges in turn, each on its own; the edges whose requests did not all go through are returned too. -/
def onEdgesDelete (groups : List DeviceGroup) (selected : Option String) (fate : Rel → Nat → Fate) :
    List Rel → Db → Db × List Rel
  | [], db => (db, [])
  | r :: rs, db =>
    if inSelection text groups selected r then
      let sent := sendAll parse (fate r) 0 (removals text groups r) db
      let rest := onEdgesDelete groups selected fate rs sent.1
      (rest.1, if sent.2 then rest.2 else r :: rest.2)
    else onEdgesDelete groups selected fate rs db

end Map

end Web
end BeautyAwg
