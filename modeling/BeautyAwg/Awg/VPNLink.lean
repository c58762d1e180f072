import BeautyAwg.Lib.Base64
import BeautyAwg.Lib.Bytes
import BeautyAwg.Lib.JsonText
import BeautyAwg.Lib.Zlib
import BeautyAwg.Awg.ClientConf

/-!
# `Awg.VPNLink`: the import link of a device

`RenderVPNLink` (`internal/awg/vpnlink.go`): the file of a device inside JSON, inside JSON once more, compressed
behind its length and written in base64. The fields of an object stand in the order of their keys, as `json.Marshal`
writes a map.
-/

namespace BeautyAwg
namespace Awg

open Netip Strconv Bytes

/-- `strconv.Itoa`, and `FormatUint` of what is not negative. -/
def itoa (n : Int) : String := String.ofList (formatInt n)

/-- A header value in decimal. -/
def u32 (v : BitVec 32) : String := itoa v.toNat

/-- The host and the port of an endpoint, around its last colon. -/
def splitEndpoint (endpoint : String) : String × String :=
  match splitLast ':' endpoint.toList with
  | some (host, port) => (String.ofList host, String.ofList port)
  | none => (endpoint, "")

/-- `clientDNS` of the link, which chooses a server again. -/
def linkDNS (hub : Hub) (c : Client) (granted : List Grant) : String :=
  if hub.resolver then hub.address.text
  else if c.dns ≠ "" then c.dns
  else
    match granted.find? fun g => g.nodeDNS ≠ "" with
    | some g => g.nodeDNS
    | none => hub.dns

section Link

variable (hub : Hub) (c : Client) (granted : List Grant)

/-- `lastConfig`. The port is what `Atoi` returns, also beside an error. -/
def lastConfig : Json :=
  let p := hub.params
  let (host, portStr) := splitEndpoint hub.endpoint
  .obj
    [("H1", .str (u32 p.h1)), ("H2", .str (u32 p.h2)), ("H3", .str (u32 p.h3)), ("H4", .str (u32 p.h4)),
      ("Jc", .str (itoa p.jc)), ("Jmax", .str (itoa p.jmax)), ("Jmin", .str (itoa p.jmin)),
      ("S1", .str (itoa p.s1)), ("S2", .str (itoa p.s2)), ("client_ip", .str c.address.text),
      ("client_priv_key", .str c.keys.priv), ("client_pub_key", .str c.keys.pub),
      ("config", .str (renderClient hub c granted)), ("hostName", .str host),
      ("port", .num (parseInt portStr.toList).1), ("server_pub_key", .str hub.keys.pub)]

/-- The object that the link carries. -/
def linkRoot : Json :=
  let (host, portStr) := splitEndpoint hub.endpoint
  let dns1 := if linkDNS hub c granted = "" then "1.1.1.1" else linkDNS hub c granted
  let dns2 := dns1
  .obj
    [("containers", .arr
        [.obj
          [("awg", .obj
              [("isThirdPartyConfig", .bool true),
                ("last_config", .str (String.ofList (lastConfig hub c granted).marshal)),
                ("port", .str portStr), ("transport_proto", .str "udp")]),
            ("container", .str "amnezia-awg")]]),
      ("defaultContainer", .str "amnezia-awg"), ("description", .str c.name), ("dns1", .str dns1), ("dns2", .str dns2),
      ("hostName", .str host)]

/-- `json.Marshal` of the object, as bytes. -/
def rootJSON : Bytes := utf8 (linkRoot hub c granted).marshal

/-- The length of the data in four bytes, and the data compressed. -/
def qCompress (zlib : Zlib) (data : Bytes) : Bytes := be32 data.length ++ zlib.deflate data

/-- What a link starts with. -/
def linkScheme : Bytes := ascii "vpn://".toList

/-- `RenderVPNLink`. -/
def renderVPNLink (zlib : Zlib) : Bytes :=
  linkScheme ++ Base64.encode Base64.url (qCompress zlib (rootJSON hub c granted))

end Link

end Awg
end BeautyAwg
