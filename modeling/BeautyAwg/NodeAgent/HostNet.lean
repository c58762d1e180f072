import Mathlib.Data.List.Sort
import BeautyAwg.NodeAgent.Firewall

/-!
# `NodeAgent.HostNet`: the devices, routes and policy rules of a node

What the `ip` lines of a node's file act on, beside the iptables rules. A line is split into words as the shell
does it, and each command changes one thing or fails and changes nothing.

## Contents
- **State.** `HostNet`: no route without its device.
- **`ip`.** `ipCommand`, on the words of a line; one definition for each command that occurs.
- **Lines.** `HostState`, `Env.hostExec`.
-/

namespace BeautyAwg
namespace NodeAgent

open Netip Awg

/-! ## State -/

/-- A policy rule: its preference, the mark it asks for, what else it asks for, and its table. -/
structure PolicyRule where
  pref : Nat
  fwmark : Option String
  selectors : String
  table : String
  deriving DecidableEq, Repr

/-- A route of one table, to a device. -/
structure TableRoute where
  table : String
  dest : String
  dev : String
  deriving DecidableEq, Repr

/-- A device; `tunnel` has the ends of an IPIP tunnel, the near one first. -/
structure Device where
  name : String
  tunnel : Option (String × String)
  up : Bool
  addrs : List String
  deriving DecidableEq, Repr

/-- What `ip` changes on a host: its devices, its routes and its policy rules. -/
@[ext]
structure HostNet where
  devices : List Device
  routes : List TableRoute
  policy : List PolicyRule
  routes_dev : ∀ r ∈ routes, r.dev ∈ devices.map Device.name

namespace HostNet

variable (k : HostNet)

/-- One more device. -/
def addDevice (d : Device) : HostNet :=
  { k with
    devices := k.devices ++ [d]
    routes_dev := fun r hr => by
      rw [List.map_append]
      exact List.mem_append_left _ (k.routes_dev r hr) }

/-- One device set up, or given an address. -/
def editDevice (name : String) (up : Bool) (addr : Option String) : HostNet :=
  { k with
    devices := k.devices.map fun d => if d.name = name then
      { d with up := d.up || up, addrs := d.addrs ++ (addr.filter (· ∉ d.addrs)).toList } else d
    routes_dev := fun r hr => by
      rw [List.map_map]
      refine (List.map_congr_left fun d _ => ?_) ▸ k.routes_dev r hr
      show d.name = (if d.name = name then _ else d : Device).name
      split <;> rfl }

/-- A device goes with its routes. -/
def deleteDevice (name : String) : HostNet where
  devices := k.devices.filter fun d => d.name ≠ name
  routes := k.routes.filter fun r => r.dev ≠ name
  policy := k.policy
  routes_dev := fun r hr => by
    obtain ⟨hr, hne⟩ := List.mem_filter.mp hr
    obtain ⟨d, hd, hname⟩ := List.mem_map.mp (k.routes_dev r hr)
    refine List.mem_map.mpr ⟨d, List.mem_filter.mpr ⟨hd, ?_⟩, hname⟩
    rw [hname]
    exact hne

/-- A route in the place of the one with its destination, if there is one. -/
def replaceRoute (r : TableRoute) (hdev : r.dev ∈ k.devices.map Device.name) : HostNet :=
  { k with
    routes := (k.routes.filter fun x => ¬ (x.table = r.table ∧ x.dest = r.dest)) ++ [r]
    routes_dev := fun x hx => by
      rcases List.mem_append.mp hx with hx | hx
      · exact k.routes_dev x (List.mem_filter.mp hx).1
      · rw [List.mem_singleton.mp hx]
        exact hdev }

/-- A table without its routes. -/
def flushTable (table : String) : HostNet :=
  { k with
    routes := k.routes.filter fun r => r.table ≠ table
    routes_dev := fun r hr => k.routes_dev r (List.mem_filter.mp hr).1 }

/-- A rule that is added comes after those of its preference. -/
def addPolicy (r : PolicyRule) : HostNet :=
  { k with policy := k.policy.orderedInsert (fun a b => a.pref < b.pref) r }

/-- The first policy rule that matches is gone. -/
def deletePolicy (p : PolicyRule → Bool) : HostNet := { k with policy := k.policy.eraseP p }

end HostNet

/-! ## `ip` -/

/-- `ip link add`. -/
def linkAdd (args : List String) (k : HostNet) : Option HostNet :=
  match args with
  | [dev, "type", "ipip", "local", near, "remote", far] =>
    if dev ∈ k.devices.map Device.name then none else some (k.addDevice ⟨dev, some (near, far), false, []⟩)
  | _ => none

/-- `ip addr replace`. -/
def addrReplace (args : List String) (k : HostNet) : Option HostNet :=
  match args with
  | [addr, "dev", dev] => if dev ∈ k.devices.map Device.name then some (k.editDevice dev false (some addr)) else none
  | _ => none

/-- `ip link set`. -/
def linkSet (args : List String) (k : HostNet) : Option HostNet :=
  match args with
  | [dev, "up"] => if dev ∈ k.devices.map Device.name then some (k.editDevice dev true none) else none
  | _ => none

/-- `ip link del`. -/
def linkDel (args : List String) (k : HostNet) : Option HostNet :=
  match args with
  | [dev] => if dev ∈ k.devices.map Device.name then some (k.deleteDevice dev) else none
  | _ => none

/-- A route needs a device that is up. -/
def routeReplace (args : List String) (k : HostNet) : Option HostNet :=
  match args with
  | ["default", "dev", dev, "table", table] =>
    if h : dev ∈ (k.devices.filter Device.up).map Device.name then
      some (k.replaceRoute ⟨table, "default", dev⟩ (((List.filter_sublist).map _).subset h))
    else none
  | _ => none

/-- `ip route flush`. -/
def routeFlush (args : List String) (k : HostNet) : Option HostNet :=
  match args with
  | ["table", table] => some (k.flushTable table)
  | _ => none

/-- `fwmark … lookup … pref …`, as a rule. -/
def policyRule (args : List String) : Option PolicyRule :=
  match args with
  | ["fwmark", mark, "lookup", table, "pref", pref] =>
    (parseDecimal (2 ^ 32 - 1) pref.toList).map fun n => ⟨n, some mark, "", table⟩
  | _ => none

/-- A rule that is there already is refused. -/
def ruleAdd (args : List String) (k : HostNet) : Option HostNet :=
  (policyRule args).bind fun r => if r ∈ k.policy then none else some (k.addPolicy r)

/-- The first rule with the preference, mark and table given is deleted. -/
def ruleDel (args : List String) (k : HostNet) : Option HostNet :=
  (policyRule args).bind fun r =>
    let p := fun x : PolicyRule => decide (x.pref = r.pref ∧ x.fwmark = r.fwmark ∧ x.table = r.table)
    if k.policy.any p then some (k.deletePolicy p) else none

/-- One command, in words; nothing if it fails. -/
def ipCommand (words : List String) (k : HostNet) : Option HostNet :=
  match words with
  | "link" :: "add" :: args => linkAdd args k
  | "link" :: "set" :: args => linkSet args k
  | "link" :: "del" :: args => linkDel args k
  | "addr" :: "replace" :: args => addrReplace args k
  | "rule" :: "add" :: args => ruleAdd args k
  | "rule" :: "del" :: args => ruleDel args k
  | "route" :: "replace" :: args => routeReplace args k
  | "route" :: "flush" :: args => routeFlush args k
  | _ => none

/-! ## Lines -/

/-- A command's arguments as words. -/
def ipWords (args : String) : List String := (args.toList.splitOn ' ').map String.ofList

/-- What the lines of a file act on. -/
@[ext]
structure HostState where
  rules : Multiset IptRule
  net : HostNet

/-- An `ip` line acts on the network and any other on the iptables rules. -/
def Env.hostExec (env : Env) : Cmd → HostState → HostState × Bool
  | .ip args, s => ((ipCommand (ipWords args) s.net).elim s fun k => { s with net := k },
      (ipCommand (ipWords args) s.net).isSome)
  | c, s => ({ s with rules := (env.exec c s.rules).1 }, (env.exec c s.rules).2)

/-- `awg-quick` runs the `PostUp` lines on a host where the lines with these numbers fail. -/
def Env.bringUp (env : Env) (broken : Nat → Bool) (conf : List Hook) (s : HostState) : HostState × Bool :=
  Script.run (Script.hampered env.hostExec broken) (Script.numbered (lines true conf)) s

/-- `awg-quick` runs the `PostDown` lines. -/
def Env.takeDown (env : Env) (conf : List Hook) (s : HostState) : HostState × Bool :=
  Script.run env.hostExec (lines false conf) s

end NodeAgent
end BeautyAwg
