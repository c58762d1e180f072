import BeautyAwg.Lib.Nft
import BeautyAwg.Awg.Model

/-!
# `Awg.Nft`: the hub's ruleset

`RenderNFT` and `nftRuleLines` (`internal/awg/nft.go`). The ruleset is built as syntax and printed by
`renderNFT`; each definition below is one loop or branch of the source, in the source's order.
-/

namespace BeautyAwg
namespace Awg

open Netip Nft

/-- The destinations inside the mesh: every LAN of a non-hub node, then the pool. -/
def nftMesh (hub : Hub) (nodes : List Node) : List Prefix :=
  (nodes.filter fun n => !n.isHub).flatMap Node.subnets
    ++ if hub.poolCIDR.isValid then [hub.poolCIDR] else []

/-- An `ip saddr c ip daddr d … accept` rule. -/
def acceptFlow (src dst : Operand) (rest : List Match := []) : Rule :=
  ⟨.saddr src :: .daddr dst :: rest, .accept⟩

/-- The ports of an access-level rule, for one protocol. -/
def GrantRule.portMatch (r : GrantRule) (proto : String) : Match :=
  .dport proto r.portFrom (if r.portFrom < r.portTo then some r.portTo else none)

/-- The line of an access-level rule for one protocol, with its ports if it has any. -/
def nftRuleLine (client : Addr) (r : GrantRule) (proto : String) : Rule :=
  acceptFlow (.addr client) (.net r.dest) [if 0 < r.portFrom then r.portMatch proto else .ipProtocol proto]

/-- The accept rules of one access-level rule. Without a port and a protocol there is one plain rule; a
    port without a protocol is opened for tcp and udp. -/
def nftRuleLines (client : Addr) (r : GrantRule) : List Rule :=
  if r.proto = "" ∨ r.proto = "any" then
    if 0 < r.portFrom then ["tcp", "udp"].map (nftRuleLine client r)
    else [acceptFlow (.addr client) (.net r.dest)]
  else [nftRuleLine client r r.proto]

/-- The accept rules of one grant. A hub-exit grant opens the WAN interface and nothing else; a node-exit
    grant opens what lies outside the mesh and then, like any other grant, the node's own subnets. -/
def nftGrantRules (hub : Hub) (mesh : List Prefix) (g : Grant) : List Rule :=
  if g.isExit then [⟨[.saddr (.addr g.clientAddr), .oifname hub.wanIface], .accept⟩] else
  (if g.nodeExit then
    [⟨.saddr (.addr g.clientAddr) :: (if mesh = [] then [] else [.daddrNotIn mesh]), .accept⟩]
  else [])
  ++ if g.rules = [] then g.subnets.map fun s => acceptFlow (.addr g.clientAddr) (.net s)
    else g.rules.flatMap (nftRuleLines g.clientAddr)

/-- The accept rules of one link: the source node itself and each of its LANs to each destination LAN. -/
def nftLinkRules (l : NodeLink) : List Rule :=
  l.dstSubnets.flatMap fun dst =>
    (if l.srcAddr.isValid then [acceptFlow (.net (.host l.srcAddr)) (.net dst)] else [])
      ++ l.srcSubnets.map fun src => acceptFlow (.net src) (.net dst)

/-- The MSS clamp; it skips what leaves by the WAN interface when there is one. -/
def mssClamp (hub : Hub) : Rule :=
  ⟨(if hub.wanIface ≠ "" then [.oifnameNe hub.wanIface] else []) ++ [.tcpSyn, .maxsegAbove 1280],
    .setMaxseg 1280⟩

/-- Who may open a connection to whom. What no line accepts is dropped, and answers to what was accepted pass
    first. -/
def forwardChain (hub : Hub) (nodes : List Node) (grants : List Grant) (links : List NodeLink) : Chain where
  name := "forward"
  hook := "type filter hook forward priority filter"
  policy := .drop
  rules := mssClamp hub :: ⟨[.ctState [.established, .related]], .accept⟩
    :: grants.flatMap (nftGrantRules hub (nftMesh hub nodes)) ++ links.flatMap nftLinkRules

/-- The udp and the tcp rule that send a destination's or a client's port 53 elsewhere. -/
def dnsRules (m : Match) (stmt : Stmt) : List Rule :=
  ["udp", "tcp"].map fun proto => ⟨[m, .dport proto 53 none], stmt⟩

/-- DNS queries go to the hub's resolver, or each device's to the server of a location it is granted. -/
def preroutingChain (hub : Hub) (grants : List Grant) : Chain where
  name := "prerouting"
  hook := "type nat hook prerouting priority dstnat"
  policy := .accept
  rules :=
    if hub.resolver then
      if 0 < hub.resolverPort then dnsRules (.daddr (.addr hub.address)) (.redirect hub.resolverPort) else []
    else grants.flatMap fun g =>
      if g.nodeDNS = "" then [] else dnsRules (.saddr (.addr g.clientAddr)) (.dnat g.nodeDNS)

/-- What devices send out by the WAN interface leaves under the hub's address. -/
def postroutingChain (hub : Hub) : Chain where
  name := "postrouting"
  hook := "type nat hook postrouting priority srcnat"
  policy := .accept
  rules := [⟨[.saddr (.net hub.poolCIDR), .oifname hub.wanIface], .masquerade⟩]

/-- The two tables of the ruleset: the ACL and the address translation. -/
def nftRuleset (hub : Hub) (nodes : List Node) (grants : List Grant) (links : List NodeLink) : List Table :=
  [⟨"inet", "awgacl", [forwardChain hub nodes grants links]⟩,
    ⟨"ip", "awgnat", preroutingChain hub grants :: if hub.wanIface ≠ "" then [postroutingChain hub] else []⟩]

/-- `RenderNFT`: the text `nft -f` loads. -/
def renderNFT (hub : Hub) (nodes : List Node) (grants : List Grant) (links : List NodeLink) : String :=
  "\n".intercalate ((nftRuleset hub nodes grants links).map Table.text)

/-- Whether every operand, port and target of the ruleset can be read. -/
def nftReads (hub : Hub) (nodes : List Node) (grants : List Grant) (links : List NodeLink) : Bool :=
  (nftRuleset hub nodes grants links).all Table.reads

/-- Whether `nft -f` takes the ruleset. -/
def nftLoads (hub : Hub) (nodes : List Node) (grants : List Grant) (links : List NodeLink) : Bool :=
  (nftRuleset hub nodes grants links).all Table.loads

end Awg
end BeautyAwg
