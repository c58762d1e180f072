import BeautyAwg.Awg.Model

/-!
# `Awg.Render`: the hub's configuration file

`RenderHub` (`internal/awg/render.go`), one definition for each block it prints.
-/

namespace BeautyAwg
namespace Awg

open Netip

/-- One `Key = Value` line. -/
def confLine (key value : String) : String := key ++ " = " ++ value ++ "\n"

/-- The shared obfuscation lines. -/
def paramsBlock (p : ObfuscationParams) : String :=
  confLine "Jc" (toString p.jc) ++ confLine "Jmin" (toString p.jmin) ++ confLine "Jmax" (toString p.jmax) ++
    confLine "S1" (toString p.s1) ++ confLine "S2" (toString p.s2) ++
    confLine "H1" (toString p.h1.toNat) ++ confLine "H2" (toString p.h2.toNat) ++
    confLine "H3" (toString p.h3.toNat) ++ confLine "H4" (toString p.h4.toNat)

/-- The `[Interface]` block. The address has the pool's length, for an on-link route to the pool. -/
def interfaceBlock (hub : Hub) : String :=
  "[Interface]\n" ++ confLine "Address" (hub.address.text ++ "/" ++ toString hub.poolCIDR.bits) ++
    confLine "ListenPort" (toString hub.listenPort) ++ confLine "PrivateKey" hub.keys.priv ++
    paramsBlock hub.params

/-- A `[Peer]` block under a comment that names the peer. -/
def peerBlock (kind name pub preshared allowed : String) : String :=
  "\n# " ++ kind ++ ": " ++ name ++ "\n[Peer]\n" ++ confLine "PublicKey" pub ++
    (if preshared ≠ "" then confLine "PresharedKey" preshared else "") ++ confLine "AllowedIPs" allowed

/-- The node's own address and its LANs. -/
def Node.allowedIPs (n : Node) : String :=
  ", ".intercalate ((n.address.text ++ "/32") :: n.subnets.map Prefix.text)

/-- The block of a home server. -/
def nodeBlock (n : Node) : String := peerBlock "node" n.name n.keys.pub n.preshared n.allowedIPs

/-- The block of a device. -/
def clientBlock (c : Client) : String :=
  peerBlock "client" c.name c.keys.pub c.preshared (c.address.text ++ "/32")

/-- `RenderHub`. The hub node is the interface itself, not a peer; the source's grants are not read. -/
def renderHub (hub : Hub) (nodes : List Node) (clients : List Client) : String :=
  interfaceBlock hub ++ String.join ((nodes.filter fun n => !n.isHub).map nodeBlock) ++
    String.join (clients.map clientBlock)

end Awg
end BeautyAwg
