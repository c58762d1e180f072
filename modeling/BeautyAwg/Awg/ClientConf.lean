import BeautyAwg.Awg.Render

/-!
# `Awg.ClientConf`: the configuration of a device

`RenderClient` (`internal/awg/render.go`): the file a user imports. Its `AllowedIPs` are the device's own
half of access control: what they do not cover never enters the tunnel.
-/

namespace BeautyAwg
namespace Awg

open Netip

/-- The default route, as the source writes it. -/
def fullTunnel : String := "0.0.0.0/0"

/-- What a grant adds to `AllowedIPs`: everything for a node exit, and then its destinations. -/
def Grant.allowedTexts (g : Grant) : List String :=
  (if g.nodeExit then [fullTunnel] else []) ++ g.dests.map Prefix.text

/-- The hub's tunnel address and what the grants add; the default route alone if it is among them. -/
def clientAllowedIPs (hub : Hub) (granted : List Grant) : List String :=
  let allowed := (hub.address.text ++ "/32") :: granted.flatMap Grant.allowedTexts
  if fullTunnel ∈ allowed then [fullTunnel] else allowed

/-- The hub with the resolver on; else the client's own, the first granted node's that has one, the hub's
    default. -/
def clientDNS (hub : Hub) (c : Client) (granted : List Grant) : String :=
  if hub.resolver then hub.address.text
  else if c.dns ≠ "" then c.dns
  else ((granted.map Grant.nodeDNS).find? fun dns => dns ≠ "").getD hub.dns

/-- `RenderClient`. -/
def renderClient (hub : Hub) (c : Client) (granted : List Grant) : String :=
  let dns := clientDNS hub c granted
  "[Interface]\n" ++ confLine "Address" (c.address.text ++ "/32") ++ confLine "PrivateKey" c.keys.priv ++
    (if dns ≠ "" then confLine "DNS" dns else "") ++ paramsBlock hub.params ++
    "\n# hub\n[Peer]\n" ++ confLine "PublicKey" hub.keys.pub ++
    (if c.preshared ≠ "" then confLine "PresharedKey" c.preshared else "") ++
    confLine "Endpoint" hub.endpoint ++
    confLine "AllowedIPs" (", ".intercalate (clientAllowedIPs hub granted)) ++
    confLine "PersistentKeepalive" "25"

end Awg
end BeautyAwg
