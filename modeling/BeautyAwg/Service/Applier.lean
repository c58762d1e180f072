import BeautyAwg.Lib.PolicyRouting
import BeautyAwg.Lib.Tasks
import BeautyAwg.Service.Reconcile

/-!
# `Service.Applier`: the commands of a reconcile

`Apply`, `EnsureRoutes` and `EnsureExitRoutes` (`internal/awg/apply.go`) as programs of single commands on the
live state of the hub. A command fails when the kernel refuses it, or at any time for a reason of its own (a
fault); some failures end the reconcile, others are passed over.

Packets to the hub itself never get to the rules modelled here. The write to a device's `rp_filter` knob, whose
failure is only logged, and `DryRun` are left out.

## Contents
- **Exit plan.** `exitIndex`, `exitPlan`.
- **Live state.** `Live`; `CleanHost`.
- **Programs.** `Task`, `Task.perform`, `Applier.apply`, `Applier.ensureRoutes`, `Applier.ensureExitRoutes`.
- **Runs.** `Runs`: one reconcile after the other, each cut short at any command.
-/

namespace BeautyAwg
namespace Service

open Netip Awg Store PolicyRouting

/-! ## Exit plan -/

/-- The devices that traffic leaves by. `exit i` is the IPIP device named `awgex<i>`. -/
inductive Dev where
  | wan
  | awg
  | exit (index : Nat)
  deriving DecidableEq, Repr

/-- The device is an exit tunnel. -/
def Dev.isExit : Dev → Bool
  | exit _ => true
  | _ => false

/-- What the names of exit devices begin with. -/
def exitDevPrefix : String := "awgex"

/-- The name of an exit device; the others are named by the configuration. -/
def Dev.exitName : Dev → Option String
  | exit i => some (exitDevPrefix ++ toString i)
  | _ => none

/-- The kernel's main routing table. -/
def mainTable : Nat := 254

/-- Where the rules that keep mesh traffic in the main table stand. -/
def exitMeshPref : Nat := 5090

/-- Where the rules that send devices to their exits stand, behind the former. -/
def exitPref : Nat := 5100

/-- The first table of an exit device. -/
def exitTableBase : Nat := 1000

/-- An exit tunnel: its name, its far end and the table that leads into it. -/
structure ExitDevice where
  name : Dev
  remote : Addr
  table : Nat
  deriving DecidableEq, Repr

/-- What a device sends goes by this table. -/
structure ExitRule where
  client : Addr
  table : Nat
  deriving DecidableEq, Repr

/-- The last two bytes of an IPv4 address; `As4` panics on any other. -/
def exitIndex (node : Addr) : Option Nat := node.as4.map fun b => b.toNat % 65536

/-- The exit tunnel to a node, named after the node's address. -/
def exitDevice (node : Addr) : Option ExitDevice :=
  (exitIndex node).map fun i => ⟨.exit i, node, exitTableBase + i⟩

/-- The rule for a device that exits through a node. -/
def exitRule (r : ExitRoute) : Option ExitRule := (exitIndex r.node).map fun i => ⟨r.client, exitTableBase + i⟩

/-- By remote address. -/
def ExitDevice.le (d d' : ExitDevice) : Prop := d.remote.le d'.remote = true

instance : DecidableRel ExitDevice.le := fun _ _ => inferInstanceAs (Decidable (_ = true))

/-- By client, and for one client by the text of the table. -/
def ExitRule.le (r r' : ExitRule) : Prop :=
  if r.client ≠ r'.client then r.client.le r'.client = true else toString r.table ≤ toString r'.table

instance : DecidableRel ExitRule.le := fun r r' => by
  unfold ExitRule.le
  infer_instance

/-- A device for each node that is an exit, and a rule for each client; nothing when an address is not IPv4. -/
def exitPlan (routes : List ExitRoute) : Option (List ExitDevice × List ExitRule) :=
  if routes.all fun r => (exitIndex r.node).isSome then
    some (((routes.map ExitRoute.node).dedup.filterMap exitDevice).insertionSort ExitDevice.le,
      (routes.filterMap exitRule).insertionSort ExitRule.le)
  else none

/-! ## Live state -/

/-- The kernel's routing, and the snapshots whose configuration and ruleset were loaded last. -/
structure Live where
  net : Kernel Nat Dev
  peers : Option Snapshot
  acl : Option Snapshot
  deriving DecidableEq, Repr

/-- Every packet is looked up in the main table last. -/
def mainRule : PolicyRouting.Rule Nat := ⟨32766, none, none, mainTable⟩

/-- The hub's own way out. -/
def wanRoute : Route Nat Dev := ⟨mainTable, everywhere, .wan⟩

/-- A host with none of the panel's rules, routes and devices: the main table alone, its default route the
    WAN. -/
structure CleanHost (net : Kernel Nat Dev) : Prop where
  rules : net.rules = [mainRule]
  routes : ∀ r ∈ net.routes, r.table = mainTable ∧ r.dev.isExit = false
  default : wanRoute ∈ net.routes
  links : ∀ l ∈ net.links, l.dev.isExit = false

/-- The names of the exit devices that there are. -/
def Live.exitDevices (l : Live) : List Dev := (l.net.links.map Link.dev).filter Dev.isExit

/-- What `awg-quick up` routes to the interface: the pool, on link, and what the peers' `AllowedIPs` list. -/
def awgRoutes (s : Snapshot) : List Prefix :=
  (Prefix.masked ⟨s.hub.address, s.hub.poolCIDR.bits⟩ ::
    ((s.nodes.filter fun n => !n.isHub).flatMap fun n => Prefix.host n.address :: n.subnets) ++
    s.clients.map fun c => Prefix.host c.address).filter fun p => p.bits ≠ 0

/-- The tunnel comes up, with a route for each prefix of its peers. -/
def awgUp (s : Snapshot) (net : Kernel Nat Dev) : Kernel Nat Dev :=
  { net with
    routes := net.routes ++ (awgRoutes s).map fun p => ⟨mainTable, p, .awg⟩
    links := net.links ++ [⟨.awg, none, true, [s.hub.address]⟩] }

/-! ## Programs -/

/-- A command, or a loop or test of the source that has not yet come to its commands. -/
inductive Task where
  /-- Directories and files are made and written. -/
  | files
  | ensureIface (s : Snapshot)
  | awgQuickUp (s : Snapshot)
  | syncconf (s : Snapshot)
  | loadNFT (s : Snapshot)
  | flushRules (pref : Nat)
  | reapDevices (want : List Dev)
  | ensureLink (d : ExitDevice) (hubAddr : Addr)
  | ip (tolerated : Bool) (cmd : Cmd Nat Dev)
  | panicked
  deriving DecidableEq, Repr

/-- What the next command does, and what comes in the task's place; nothing comes when the reconcile ends with
    an error. -/
def Task.perform : Task → Bool → Live → Live × Option (List Task)
  | files, fault, l => (l, if fault then none else some [])
  | ensureIface s, fault, l =>
    (l, some (if !fault && l.net.hasLink .awg then [files, syncconf s] else [awgQuickUp s]))
  | awgQuickUp s, fault, l =>
    if fault || l.net.hasLink .awg then (l, none)
    else ({ l with net := awgUp s l.net, peers := some s }, some [])
  | syncconf s, fault, l =>
    if fault || !l.net.hasLink .awg then (l, none) else ({ l with peers := some s }, some [])
  | loadNFT s, fault, l =>
    if fault || !nftLoads s.hub s.nodes s.grants s.links then (l, none)
    else ({ l with acl := some s }, some [])
  | flushRules pref, fault, l =>
    -- `ip rule del` takes one rule at a time; the loop ends at its first failure, whatever the reason
    match if fault then none else (Cmd.delRule pref).exec l.net with
    | some net => ({ l with net := net }, some [flushRules pref])
    | none => (l, some [])
  | reapDevices want, fault, l =>
    (l, some (if fault then [] else (l.exitDevices.filter fun dev => dev ∉ want).map fun dev =>
      ip true (.delLink dev)))
  | ensureLink d hubAddr, fault, l =>
    (l, some (if !fault && l.net.hasLink d.name then []
      else [ip false (.addTunnel d.name hubAddr d.remote), ip false (.setUp d.name)]))
  | ip tolerated cmd, fault, l =>
    match if fault then none else cmd.exec l.net with
    | some net => ({ l with net := net }, some [])
    | none => (l, if tolerated then some [] else none)
  | panicked, _, l => (l, none)

namespace Applier

/-- The configuration and the ruleset. -/
def apply (s : Snapshot) : List Task := [.files, .ensureIface s, .loadNFT s]

/-- A route into the tunnel for each subnet, the whole internet aside. -/
def ensureRoutes (subnets : List Prefix) : List Task :=
  (subnets.filter fun p => p.bits ≠ 0).map fun p => .ip false (.replaceRoute ⟨mainTable, p, .awg⟩)

/-- An exit device is made, given the hub's address, and its table led into it. -/
def deviceTasks (hubAddr : Addr) (d : ExitDevice) : List Task :=
  [.ensureLink d hubAddr, .ip false (.replaceAddr d.name hubAddr),
    .ip false (.replaceRoute ⟨d.table, everywhere, d.name⟩)]

/-- In-VPN destinations go back to the main table. -/
def meshRule (p : Prefix) : PolicyRouting.Rule Nat := ⟨exitMeshPref, none, some p, mainTable⟩

/-- All else that a client sends goes to its node's table. -/
def sourceRule (r : ExitRule) : PolicyRouting.Rule Nat := ⟨exitPref, some (.host r.client), none, r.table⟩

/-- `EnsureExitRoutes`: the old rules go, the devices are made and the ones not wanted taken away, and last the rules
    come. -/
def ensureExitRoutes (hubAddr : Addr) (mesh : List Prefix) (routes : List ExitRoute) : List Task :=
  match exitPlan routes with
  | none => [.panicked]
  | some (devs, rules) =>
    [.flushRules exitMeshPref, .flushRules exitPref,
      -- left over from the design with a single exit
      .ip true (.delRoute ⟨51, everywhere, .awg⟩), .reapDevices (devs.map ExitDevice.name)]
    ++ devs.flatMap (deviceTasks hubAddr) ++ mesh.map (fun p => .ip false (.addRule (meshRule p)))
    ++ rules.map fun r => .ip false (.addRule (sourceRule r))

end Applier

/-- The applier's part of `Reconcile`. -/
def reconcile (s : Snapshot) : List Task :=
  Applier.apply s ++ Applier.ensureRoutes (Plan.of s).routes ++
    Applier.ensureExitRoutes (Plan.of s).hubAddr (Plan.of s).mesh (Plan.of s).exits

/-! ## Runs -/

/-- A command of the reconcile under way or, when none is, the start of one on a snapshot of the kind. -/
inductive Moves (kind : Snapshot → Prop) : List Task × Live → List Task × Live → Prop
  | start {l : Live} {s : Snapshot} (hs : kind s) : Moves kind ([], l) (reconcile s, l)
  | command {c c' : List Task × Live} (h : Tasks.Step Task.perform c c') : Moves kind c c'

/-- Reconciles one after the other, with the program that is left of the last one. -/
def Runs (kind : Snapshot → Prop) : List Task × Live → List Task × Live → Prop :=
  Relation.ReflTransGen (Moves kind)

/-- The reconcile of a snapshot runs to its end, its commands failing only where the kernel refuses. -/
def Reconciles (s : Snapshot) (l l' : Live) : Prop := Tasks.Finishes Task.perform (reconcile s) l l'

end Service
end BeautyAwg
