import Mathlib.Data.Multiset.AddSub
import BeautyAwg.Awg.NodeConf
import BeautyAwg.Lib.Replace
import BeautyAwg.NodeAgent.Host

/-!
# `NodeAgent.Firewall`: the iptables rules of a node

What `awg-quick` does with the lines of a node's file: `down` runs the `PostDown` lines of the file on disk
and `up` its `PostUp` lines, each up to the first that fails and is not tolerated. Of the host only the
multiset of iptables rules is kept; a file is its list of hooks.

## Contents
- **Rules.** `Env`; `Env.stored` is a rule as iptables keeps it, `Env.installs` whether it takes it.
- **Commands.** `Env.exec`, `Env.quick`.
- **Configurations.** `applied`: configurations pushed one after another; `freshRules`.
-/

namespace BeautyAwg
namespace NodeAgent

open Netip Awg
open Replace (replaceAll)

/-! ## Rules -/

/-- A node: its tunnel interface, the interface names its `iptables` takes, whether it has the proxy, and
    which targets its kernel knows beside `ACCEPT` and `MASQUERADE`. -/
structure Env where
  iface : String
  names : String → Bool
  takes_iface : names iface = true
  xkeen : Bool
  targets : IptTarget → Bool

variable (env : Env)

/-- `awg-quick` puts the interface where the file says `%i`. -/
def Env.expand (name : String) : String :=
  String.ofList (replaceAll ['%', 'i'] env.iface.toList 0 name.toList)

/-- The rule as it is kept: a source without its host bits. -/
def Env.stored (r : IptRule) : IptRule :=
  { r with
    src := r.src.map Prefix.masked
    inIf := r.inIf.map fun m => ⟨env.expand m.name, m.negated⟩
    outIf := r.outIf.map fun m => ⟨env.expand m.name, m.negated⟩ }

/-- The host's iptables has the target. -/
def Env.knows : IptTarget → Bool
  | .accept => true
  | .masquerade => true
  | t => env.targets t

/-- `iptables` takes the rule: an IPv4 source, interface names and a target it knows. -/
def Env.installs (r : IptRule) : Bool :=
  (r.src.all Prefix.is4) && (r.inIf.all fun m => env.names (env.expand m.name)) &&
    (r.outIf.all fun m => env.names (env.expand m.name)) && env.knows r.target

/-! ## Commands -/

/-- A command and whether it succeeds. The `ip` lines are all tolerated and touch no iptables rule. -/
def Env.exec : Cmd → Multiset IptRule → Multiset IptRule × Bool
  | .sysctl _, m => (m, true)
  | .ip _, m => (m, true)
  | .add _ r, m => if env.installs r then (env.stored r ::ₘ m, true) else (m, false)
  | .delete r, m => (m.erase (env.stored r), env.stored r ∈ m)
  | .xkeen _ r, m =>
    if env.xkeen && env.installs r then (if env.stored r ∈ m then m else env.stored r ::ₘ m, true)
    else (m, false)

/-- The lines of a file that `awg-quick` runs to go up, or down. -/
def lines (up : Bool) (conf : List Hook) : List (Script.Line Cmd) :=
  (conf.filter fun h => h.up = up).map Hook.toLine

/-- What `awg-quick` makes of the hooks when the tunnel goes down or comes up. -/
def Env.quick : Quick (List Hook) (Multiset IptRule) where
  down conf m := Script.run env.exec (lines false conf) m
  up conf m := Script.run env.exec (lines true conf) m

/-! ## Configurations -/

variable (hub : Hub) (n : Node)

/-- A host that no configuration has been applied to. -/
def cleanHost : Host (List Hook) (Multiset IptRule) := ⟨none, none, 0⟩

/-- The agent applies the node's configuration for these linked subnets. -/
def push (h : Host (List Hook) (Multiset IptRule)) (reach : List Prefix) :
    Host (List Hook) (Multiset IptRule) :=
  (writeAndApply env.quick .none (nodeHooks hub n reach) h).1

/-- Configurations pushed one after another. -/
def applied (reaches : List (List Prefix)) : Host (List Hook) (Multiset IptRule) :=
  reaches.foldl (push env hub n) cleanHost

/-- The rules after bringing the configuration up on a clean host. -/
def freshRules (reach : List Prefix) : Multiset IptRule := (env.quick.up (nodeHooks hub n reach) 0).1

/-- The linked subnets, as their rules see them. -/
def sources (reach : List Prefix) : Multiset Prefix := (reach.map Prefix.masked : List Prefix)

/-- The node can masquerade this subnet into its LAN. -/
def reachable (s : Prefix) : Bool := s.is4 && env.names (env.expand n.lanIface)

/-- The condition under which a series of configurations leaves the rules of its last one: nothing can be
    installed, there is one configuration, or none links a subnet the first does not, and the last links
    the same ones. -/
def Settles (first : List Prefix) (rest : List (List Prefix)) : Prop :=
  hub.poolCIDR.is4 = false ∨ rest = [] ∨
    ((∀ s ∈ first, reachable env n s = true) ∧ (∀ reach ∈ rest, sources reach ≤ sources first) ∧
      sources ((first :: rest).getLast (List.cons_ne_nil _ _)) = sources first)

end NodeAgent
end BeautyAwg
