import BeautyAwg.Web.Groups

/-!
# `Web.GroupEdits`: what the map does to a group

The actions of `AccessGraph.tsx` on whole groups and the rule editor of `RulesModal.tsx`, which sends what it shows
for every member in turn. As in `joinGroup` an action sends one request after another and stops at the first that
is answered with an error, whether or not it was carried out; the user is taken to wait for one action before the
next. A device of a group is changed
through its group alone (`AccessPicker` shows it read-only).

## Contents
- **Rules.** `openEditor`, `toSave`, `save`.
- **Lines.** `connect`, `cut`: a group's line to a location is drawn and removed.
- **The map.** `Board`, `Act`, `Board.act`.
-/

namespace BeautyAwg
namespace Web

open Store
open Requests (Fate)

/-! ## Rules -/

/-- The white space of `String.prototype.trim`. -/
def isJsSpace (c : Char) : Bool :=
  c ∈ ['\t', '\n', '\x0b', '\x0c', '\r', ' ', '\u00a0', '\u1680', '\u2028', '\u2029', '\u202f', '\u205f', '\u3000',
    '\ufeff'] || (0x2000 ≤ c.toNat && c.toNat ≤ 0x200a)

/-- `String.prototype.trim`. -/
def jsTrim (s : String) : String :=
  String.ofList ((s.toList.dropWhile isJsSpace).reverse.dropWhile isJsSpace).reverse

/-- The destination of a rule for everything. -/
def catchAll : String := "0.0.0.0/0"

/-- The exit switch stands for a rule for everything. -/
def toSave (exit : Bool) (rules : List RuleDTO) : List RuleDTO :=
  if exit then rules.filter fun r => jsTrim r.dest ≠ catchAll else rules

/-- The editor when it is open. -/
structure Editor where
  exit : Bool
  rules : List RuleDTO

/-- `getGrantExit`, where an error counts as no. -/
def exitsHere (db : Db) (nodeId id : Uuid) : Bool :=
  match grantExit id nodeId db with
  | .ok exit => exit
  | .error _ => false

/-- What the editor shows: the rules of the first device, and the exit when all of them exit here; a rule for
    everything turns the switch on. -/
def openEditor (db : Db) (clientIds : List Uuid) (nodeId : Uuid) : Editor :=
  let rules := match clientIds.head? with
    | some lead => grantRules lead nodeId db
    | none => []
  let flags := clientIds.map (exitsHere db nodeId)
  ⟨(flags ≠ [] && flags.all id) || rules.any fun r => jsTrim r.dest = catchAll, rules⟩

/-- The editor's `save`, for one device or for the members of a group. -/
def save (clientIds : List Uuid) (nodeId : Uuid) (exit : Bool) (rules : List RuleDTO) : Api Unit :=
  forM clientIds fun id => do
    setGrantExit id nodeId exit
    setGrantRules id nodeId (toSave exit rules)

/-! ## Lines -/

/-- `onConnect`. -/
def connect (members : List Uuid) (nodeId : Uuid) : Api Unit := forM members fun m => grant m nodeId

/-- `onEdgesDelete`, and `onRevoke` of the editor. -/
def cut (members : List Uuid) (nodeId : Uuid) : Api Unit := forM members fun m => revoke m nodeId

/-! ## The map -/

/-- A group, with the fields that matter for access. -/
structure DeviceGroup where
  id : String
  members : List Uuid
  deriving DecidableEq, Repr

/-- The store and the groups of the page. `torn` records the lines, by group and location, that were left half done:
    an action on the line was stopped by an error, and none has lined it up since. -/
structure Board where
  db : Db
  groups : List DeviceGroup
  torn : String → Uuid → Bool

/-- What the user does. The actions on a device are for one that is in no group; `other` is a request that is not
    about grants. -/
inductive Act where
  | create (id : String)
  | dissolve (id : String)
  | leave (id : String) (client : Uuid)
  | join (id : String) (client : Uuid) (granted : Uuid → List Uuid)
  | connect (id : String) (node : Uuid)
  | cut (id : String) (node : Uuid)
  | save (id : String) (node : Uuid) (exit : Bool) (rules : List RuleDTO)
  | grantOne (client node : Uuid)
  | revokeOne (client node : Uuid)
  | saveOne (client node : Uuid) (exit : Bool) (rules : List RuleDTO)
  | other (op : Op)

namespace Board

/-- The group that an action names. -/
def group (b : Board) (id : String) : Option DeviceGroup := b.groups.find? fun g => g.id = id

/-- `updateGroup`. -/
def update (b : Board) (id : String) (f : List Uuid → List Uuid) : Board :=
  { b with groups := b.groups.map fun g => if g.id = id then { g with members := f g.members } else g }

/-- The requests of an action, sent, each with its fate; the answer says whether all went through. -/
def send (b : Board) (fate : Nat → Fate) (requests : Api Unit) : Board × Bool :=
  match requests.runWith fate 0 b.db with
  | (some _, db) => ({ b with db := db }, true)
  | (none, db) => ({ b with db := db }, false)

/-- Some lines of a group are noted as torn, or as whole again. -/
def setTorn (b : Board) (id : String) (lines : Uuid → Bool) (value : Bool) : Board :=
  { b with torn := fun g n => if g = id ∧ lines n = true then value else b.torn g n }

/-- An action on a group's line; `linesUp` says that it leaves all members the same when it goes through. -/
def onLine (b : Board) (fate : Nat → Fate) (id : String) (node : Uuid) (linesUp : Bool)
    (requests : List Uuid → Api Unit) : Board :=
  match b.group id with
  | none => b
  | some g =>
    match b.send fate (requests g.members) with
    | (b', true) => if linesUp then b'.setTorn id (fun n => n = node) false else b'
    | (b', false) => b'.setTorn id (fun n => n = node) true

/-- The device is taken in before its requests are sent. -/
def join (b : Board) (fate : Nat → Fate) (id : String) (client : Uuid) (granted : Uuid → List Uuid) : Board :=
  match b.group id with
  | none => b
  | some g =>
    match (b.update id fun ms => ms ++ [client]).send fate (joinGroup granted g.members client) with
    | (b', true) => b'
    | (b', false) => b'.setTorn id (fun _ => true) true

/-- `fate i` is what becomes of the action's `i`-th request. -/
def act (b : Board) (fate : Nat → Fate) : Act → Board
  | .create id => { b.setTorn id (fun _ => true) false with groups := b.groups ++ [⟨id, []⟩] }
  | .dissolve id => { b with groups := b.groups.filter fun g => g.id ≠ id }
  | .leave id client => b.update id fun ms => ms.filter fun m => m ≠ client
  | .join id client granted => b.join fate id client granted
  | .connect id node => b.onLine fate id node false fun ms => Web.connect ms node
  | .cut id node => b.onLine fate id node true fun ms => Web.cut ms node
  | .save id node exit rules => b.onLine fate id node true fun ms => Web.save ms node exit rules
  | .grantOne client node => (b.send fate (grant client node)).1
  | .revokeOne client node => (b.send fate (revoke client node)).1
  | .saveOne client node exit rules => (b.send fate (Web.save [client] node exit rules)).1
  | .other op => (b.send fate (call op)).1

end Board

end Web
end BeautyAwg
