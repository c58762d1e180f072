import BeautyAwg.Awg.Render
import BeautyAwg.Lib.Script

/-!
# `Awg.NodeConf`: the configuration of a home server

`RenderNode` (`internal/awg/render.go`). The commands it has `awg-quick` run are values here, with the text
it prints for each; `%i` in them stands for the tunnel interface until `awg-quick` replaces it.

## Contents
- **Rules and commands.** `IptRule`, `Cmd`, `Hook`, each with its `text`.
- **The file.** `nodeHooks` lists the `PostUp` and `PostDown` lines; `renderNode`, and `renderNode_split`
  where its private key stands.
-/

namespace BeautyAwg
namespace Awg

open Netip

/-! ## Rules -/

/-- The tables that the hooks write to. -/
inductive IptTable where
  | filter
  | nat
  | mangle
  deriving DecidableEq, Repr

/-- The chains that the hooks write to. -/
inductive IptChain where
  | input
  | output
  | forward
  | prerouting
  | postrouting
  deriving DecidableEq, Repr

/-- An interface match, or with `negated` its opposite. -/
structure IfMatch where
  name : String
  negated : Bool
  deriving DecidableEq, Repr

/-- What a rule does with a packet that it matches. -/
inductive IptTarget where
  | accept
  | masquerade
  | setMSS (size : Nat)
  | clampMSS
  | connSetMark (mark : String)
  | connRestoreMark
  | setDSCP (value : String)
  | setMark (mark : String)
  deriving DecidableEq, Repr

/-- An iptables rule of the kinds that are used; `syn` matches TCP packets that open a connection. -/
structure IptRule where
  table : IptTable
  chain : IptChain
  src : Option Prefix
  inIf : Option IfMatch
  outIf : Option IfMatch
  syn : Bool
  connmark : Option String
  target : IptTarget
  deriving DecidableEq, Repr

/-- The flag that selects the table; the filter table needs none. -/
def IptTable.text : IptTable → String
  | filter => ""
  | nat => "-t nat "
  | mangle => "-t mangle "

/-- The chain's name. -/
def IptChain.text : IptChain → String
  | input => "INPUT"
  | output => "OUTPUT"
  | forward => "FORWARD"
  | prerouting => "PREROUTING"
  | postrouting => "POSTROUTING"

/-- The target with its own options. -/
def IptTarget.text : IptTarget → String
  | accept => "ACCEPT"
  | masquerade => "MASQUERADE"
  | setMSS size => "TCPMSS --set-mss " ++ toString size
  | clampMSS => "TCPMSS --clamp-mss-to-pmtu"
  | connSetMark mark => "CONNMARK --set-mark " ++ mark
  | connRestoreMark => "CONNMARK --restore-mark"
  | setDSCP value => "DSCP --set-dscp " ++ value
  | setMark mark => "MARK --set-mark " ++ mark

/-- A match on an interface, behind the flag for its direction. -/
def IfMatch.text (flag : String) (m : IfMatch) : String :=
  (if m.negated then "! " else "") ++ flag ++ " " ++ m.name ++ " "

/-- The arguments of `iptables` for the rule, after the operation `op`. -/
def IptRule.text (op : String) (r : IptRule) : String :=
  r.table.text ++ op ++ " " ++ r.chain.text ++ " " ++ (r.src.elim "" fun p => "-s " ++ p.text ++ " ") ++
    (r.inIf.elim "" (IfMatch.text "-i")) ++ (r.outIf.elim "" (IfMatch.text "-o")) ++
    (if r.syn then "-p tcp --tcp-flags SYN,RST SYN " else "") ++
    (r.connmark.elim "" fun mark => "-m connmark --mark " ++ mark ++ " ") ++ "-j " ++ r.target.text

/-! ## Commands -/

/-- A shell command. `iptables` adds or deletes a rule; `xkeen` adds one that is not there yet, on a host
    that has the proxy. The order of a chain's rules is not modelled, so `atHead` is only text. -/
inductive Cmd where
  | sysctl (assignment : String)
  | ip (args : String)
  | add (atHead : Bool) (r : IptRule)
  | delete (r : IptRule)
  | xkeen (atHead : Bool) (r : IptRule)
  deriving DecidableEq, Repr

/-- A line of the file for when the interface goes up or down; `tolerated` lines end in `|| true`. -/
structure Hook extends Script.Line Cmd where
  up : Bool
  deriving DecidableEq, Repr

/-- Into the chain at its head, or at its end. -/
def addOp (atHead : Bool) : String := if atHead then "-I" else "-A"

/-- The command as the shell reads it. -/
def Cmd.text : Cmd → String
  | sysctl assignment => "sysctl -w " ++ assignment
  | ip args => "ip " ++ args
  | add atHead r => "iptables " ++ r.text (addOp atHead)
  | delete r => "iptables " ++ r.text "-D"
  | xkeen atHead r => "[ -x /opt/etc/init.d/S05xkeen ] && \x7b iptables " ++ r.text "-C" ++
      " 2>/dev/null || iptables " ++ r.text (addOp atHead) ++ "; \x7d"

/-- The hook's line. A tolerated command never fails. -/
def Hook.text (h : Hook) : String :=
  confLine (if h.up then "PostUp" else "PostDown") (h.cmd.text ++ if h.tolerated then " || true" else "")

/-! ## The file -/

/-- What the agent puts its private key in place of. -/
def nodePrivatePlaceholder : String := "__REPLACE_WITH_NODE_PRIVATE_KEY__"

/-- The device that exit traffic comes in by. -/
def nodeExitDev : String := "ipip-hub"

/-- The routing table of the answers to exit traffic. -/
def nodeExitTable : String := "133"

/-- The mark of a connection that came in as exit traffic. -/
def nodeExitMark : String := "0x33"

/-- Where the rule for marked packets stands among the routing rules. -/
def nodeExitPref : String := "1330"

/-- The code point by which a local proxy picks traffic up. -/
def nodeXkeenDSCP : String := "0x3f"

/-- The tunnel interface, as a rule matches it. -/
def tunnel : IfMatch := ⟨"%i", false⟩

/-- Any interface but the tunnel's. -/
def notTunnel : IfMatch := ⟨"%i", true⟩

/-- A rule of the filter table that accepts. -/
def acceptRule (chain : IptChain) (inIf outIf : Option IfMatch) : IptRule :=
  ⟨.filter, chain, none, inIf, outIf, false, none, .accept⟩

/-- A masquerade of what comes from `src`. -/
def masqueradeRule (src : Prefix) (outIf : IfMatch) : IptRule :=
  ⟨.nat, .postrouting, some src, none, some outIf, false, none, .masquerade⟩

/-- A rule of the mangle table. -/
def mangleRule (chain : IptChain) (inIf outIf : Option IfMatch) (syn : Bool) (connmark : Option String)
    (target : IptTarget) : IptRule :=
  ⟨.mangle, chain, none, inIf, outIf, syn, connmark, target⟩

/-- What comes from the hub's pool leaves under the home server's address. -/
def poolRule (hub : Hub) : IptRule := masqueradeRule hub.poolCIDR notTunnel

/-- Traffic of a linked site is masqueraded into the LAN only. -/
def reachRule (n : Node) (s : Prefix) : IptRule := masqueradeRule s ⟨n.lanIface, false⟩

/-- From the tunnel into the LAN. -/
def outOfTunnel : IptRule := acceptRule .forward (some tunnel) (some notTunnel)

/-- From the LAN into the tunnel. -/
def intoTunnel : IptRule := acceptRule .forward (some notTunnel) (some tunnel)

/-- From the tunnel to the home server itself. -/
def inputRule : IptRule := acceptRule .input (some tunnel) none

/-- Segments that go into the tunnel fit into it. -/
def clampForward : IptRule := mangleRule .forward none (some tunnel) true none (.setMSS 1280)

/-- And so do the home server's own. -/
def clampOutput : IptRule := mangleRule .output none (some tunnel) true none (.setMSS 1280)

/-- The exit device, as a rule matches it. -/
def exitIf : IfMatch := ⟨nodeExitDev, false⟩

/-- From the exit device to anywhere. -/
def exitIn : IptRule := acceptRule .forward (some exitIf) none

/-- And back. -/
def exitOut : IptRule := acceptRule .forward none (some exitIf)

/-- Connections that come in by the exit device are marked. -/
def exitMark : IptRule := mangleRule .prerouting (some exitIf) none false none (.connSetMark nodeExitMark)

/-- A packet that comes in elsewhere gets the mark of its connection. -/
def exitRestore : IptRule :=
  mangleRule .prerouting (some ⟨nodeExitDev, true⟩) none false none .connRestoreMark

/-- Segments that go into the exit device fit its path MTU. -/
def exitClamp : IptRule := mangleRule .forward none (some exitIf) true none .clampMSS

/-- What comes in by the exit device is offered to the local proxy. -/
def xkeenDSCP : IptRule := mangleRule .prerouting (some exitIf) none false none (.setDSCP nodeXkeenDSCP)

/-- The proxy's own answers on a marked connection get its mark. -/
def xkeenMark : IptRule := mangleRule .output none none false (some nodeExitMark) (.setMark nodeExitMark)

/-- A command for when the tunnel comes up; it must succeed. -/
def postUp (cmd : Cmd) : Hook := ⟨⟨false, cmd⟩, true⟩

/-- The same, whether it succeeds or not. -/
def postUpTolerated (cmd : Cmd) : Hook := ⟨⟨true, cmd⟩, true⟩

/-- A command for when the tunnel goes down; it must succeed. -/
def postDown (cmd : Cmd) : Hook := ⟨⟨false, cmd⟩, false⟩

/-- The same, whether it succeeds or not. -/
def postDownTolerated (cmd : Cmd) : Hook := ⟨⟨true, cmd⟩, false⟩

/-- The lines for LAN access: the tunnel is forwarded and masqueraded. -/
def lanHooks (hub : Hub) (n : Node) (reach : List Prefix) : List Hook :=
  [postUp (.sysctl "net.ipv4.ip_forward=1"), postUp (.add false (poolRule hub))] ++
  reach.map (fun s => postUp (.add false (reachRule n s))) ++
  [postUp (.add true outOfTunnel), postUp (.add true intoTunnel),
    postUp (.add true inputRule), postDown (.delete inputRule),
    postUpTolerated (.add false clampForward), postUpTolerated (.add false clampOutput),
    postDownTolerated (.delete clampForward), postDownTolerated (.delete clampOutput),
    postDown (.delete (poolRule hub))] ++
  reach.map (fun s => postDown (.delete (reachRule n s))) ++
  [postDown (.delete outOfTunnel), postDown (.delete intoTunnel)]

/-- The lines for the internet exit, every one tolerated. -/
def exitHooks (hub : Hub) (n : Node) : List Hook :=
  let mark := "fwmark " ++ nodeExitMark ++ " lookup " ++ nodeExitTable ++ " pref " ++ nodeExitPref
  [postUpTolerated (.ip ("link add " ++ nodeExitDev ++ " type ipip local " ++ n.address.text ++ " remote " ++
      hub.address.text)),
    postUpTolerated (.ip ("addr replace " ++ n.address.text ++ "/32 dev " ++ nodeExitDev)),
    postUpTolerated (.ip ("link set " ++ nodeExitDev ++ " up")),
    postUpTolerated (.sysctl ("net.ipv4.conf." ++ nodeExitDev ++ ".rp_filter=2")),
    postUpTolerated (.add true exitIn), postUpTolerated (.add true exitOut),
    postUpTolerated (.add false exitMark), postUpTolerated (.add false exitRestore),
    postUpTolerated (.add false exitClamp),
    postUpTolerated (.ip ("rule add " ++ mark)),
    postUpTolerated (.ip ("route replace default dev " ++ nodeExitDev ++ " table " ++ nodeExitTable)),
    postDownTolerated (.ip ("route flush table " ++ nodeExitTable)),
    postDownTolerated (.ip ("rule del " ++ mark)),
    postDownTolerated (.delete exitClamp), postDownTolerated (.delete exitRestore),
    postDownTolerated (.delete exitMark), postDownTolerated (.delete exitIn),
    postDownTolerated (.delete exitOut),
    postDownTolerated (.ip ("link del " ++ nodeExitDev)),
    postUpTolerated (.xkeen true xkeenDSCP), postDownTolerated (.delete xkeenDSCP),
    postUpTolerated (.xkeen false xkeenMark), postDownTolerated (.delete xkeenMark)]

/-- All hooks of a home server's file, in the order in which they run. -/
def nodeHooks (hub : Hub) (n : Node) (reach : List Prefix) : List Hook :=
  lanHooks hub n reach ++ exitHooks hub n

/-- The pool and the linked subnets, each once by its text. -/
def nodeAllowedIPs (hub : Hub) (reach : List Prefix) : List String :=
  reach.foldl (fun out s => if s.text ∈ out then out else out ++ [s.text]) [hub.poolCIDR.text]

/-- `RenderNode`. -/
def renderNode (hub : Hub) (n : Node) (reach : List Prefix) : String :=
  "[Interface]\n" ++ confLine "Address" (n.address.text ++ "/32") ++
    confLine "PrivateKey" (if n.keys.priv = "" then nodePrivatePlaceholder else n.keys.priv) ++
    paramsBlock hub.params ++ String.join ((nodeHooks hub n reach).map Hook.text) ++
    "\n# hub\n[Peer]\n" ++ confLine "PublicKey" hub.keys.pub ++
    (if n.preshared ≠ "" then confLine "PresharedKey" n.preshared else "") ++
    confLine "Endpoint" hub.endpoint ++ confLine "AllowedIPs" (", ".intercalate (nodeAllowedIPs hub reach)) ++
    confLine "PersistentKeepalive" "25"

/-! ### The private key's place -/

/-- The file up to the private key. -/
def nodeHead (n : Node) : String :=
  "[Interface]\n" ++ confLine "Address" (n.address.text ++ "/32") ++ "PrivateKey" ++ " = "

/-- The file after the private key. -/
def nodeTail (hub : Hub) (n : Node) (reach : List Prefix) : String :=
  "\n" ++ (paramsBlock hub.params ++ (String.join ((nodeHooks hub n reach).map Hook.text) ++
    ("\n# hub\n[Peer]\n" ++ (confLine "PublicKey" hub.keys.pub ++
    ((if n.preshared ≠ "" then confLine "PresharedKey" n.preshared else "") ++
    (confLine "Endpoint" hub.endpoint ++ (confLine "AllowedIPs" (", ".intercalate (nodeAllowedIPs hub reach)) ++
    confLine "PersistentKeepalive" "25")))))))

theorem nodeHooks_congr {hub : Hub} {n n' : Node} {reach : List Prefix} (hiface : n.lanIface = n'.lanIface)
    (haddr : n.address = n'.address) : nodeHooks hub n reach = nodeHooks hub n' reach := by
  unfold nodeHooks lanHooks exitHooks reachRule
  rw [hiface, haddr]

/-- The file is the private key between two texts that do not depend on it. -/
theorem renderNode_split (hub : Hub) (n : Node) (reach : List Prefix) (priv : String) :
    renderNode hub { n with keys := ⟨priv, n.keys.pub⟩ } reach =
      nodeHead n ++ ((if priv = "" then nodePrivatePlaceholder else priv) ++ nodeTail hub n reach) := by
  have hhooks : nodeHooks hub { n with keys := ⟨priv, n.keys.pub⟩ } reach = nodeHooks hub n reach :=
    nodeHooks_congr rfl rfl
  have hline : ∀ value, confLine "PrivateKey" value = "PrivateKey" ++ " = " ++ value ++ "\n" := fun _ => rfl
  unfold renderNode nodeHead nodeTail
  simp only [hhooks, hline, String.append_assoc]

example : (postUpTolerated (.xkeen true xkeenDSCP)).text =
    "PostUp = [ -x /opt/etc/init.d/S05xkeen ] && \x7b iptables -t mangle -C PREROUTING -i ipip-hub -j DSCP " ++
      "--set-dscp 0x3f 2>/dev/null || iptables -t mangle -I PREROUTING -i ipip-hub -j DSCP --set-dscp 0x3f; " ++
      "\x7d || true\n" := by decide +kernel

example : (postUp (.add true intoTunnel)).text =
    "PostUp = iptables -I FORWARD ! -i %i -o %i -j ACCEPT\n" := by decide +kernel

end Awg
end BeautyAwg
