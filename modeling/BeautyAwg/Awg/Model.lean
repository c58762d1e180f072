import BeautyAwg.Lib.Netip

/-!
# `Awg.Model`: the render models

The records the renderers read (`internal/awg/model.go`, `params.go`, `keys.go`). Go `int` fields are
`Int`, `uint32` fields are `BitVec 32`.
-/

namespace BeautyAwg
namespace Awg

open Netip

/-- AmneziaWG obfuscation profile, shared by the hub and every peer. -/
structure ObfuscationParams where
  jc : Int
  jmin : Int
  jmax : Int
  s1 : Int
  s2 : Int
  h1 : BitVec 32
  h2 : BitVec 32
  h3 : BitVec 32
  h4 : BitVec 32
  deriving DecidableEq, Repr

/-- A base64-encoded key pair. -/
structure Keypair where
  priv : String
  pub : String
  deriving DecidableEq, Repr

/-- The VPS relay. `resolver` and `resolverPort` come from the panel's configuration, the rest from the
    hub row. -/
structure Hub where
  endpoint : String
  listenPort : Int
  address : Addr
  poolCIDR : Prefix
  keys : Keypair
  params : ObfuscationParams
  dns : String
  wanIface : String
  resolver : Bool
  resolverPort : Int
  deriving DecidableEq, Repr

/-- A home server with its LAN subnets; `isHub` marks the virtual internet-exit node. -/
structure Node where
  name : String
  address : Addr
  subnets : List Prefix
  keys : Keypair
  lanIface : String
  preshared : String
  isHub : Bool
  dns : String
  domains : List String
  deriving DecidableEq, Repr

/-- A device, as a file prints it. -/
structure Client where
  name : String
  address : Addr
  keys : Keypair
  preshared : String
  dns : String
  deriving DecidableEq, Repr

/-- A destination with an optional protocol and port range; `portFrom = 0` means every port and
    `portTo = 0` a single one. -/
structure GrantRule where
  dest : Prefix
  proto : String
  portFrom : Int
  portTo : Int
  deriving DecidableEq, Repr

/-- A client's access to a node. No rules means every subnet of the node. -/
structure Grant where
  clientAddr : Addr
  nodeAddr : Addr
  subnets : List Prefix
  rules : List GrantRule
  isExit : Bool
  nodeExit : Bool
  nodeDNS : String
  domains : List String
  deriving DecidableEq, Repr

/-- A directed site-to-site route. -/
structure NodeLink where
  srcAddr : Addr
  srcSubnets : List Prefix
  dstSubnets : List Prefix
  deriving DecidableEq, Repr

/-- The destinations the grant permits: its rules' (each once, by text), else the node's subnets. -/
def Grant.dests (g : Grant) : List Prefix :=
  if g.rules = [] then g.subnets else
  g.rules.foldl (fun out r =>
    if out.any fun d => d.text == r.dest.text then out else out ++ [r.dest]) []

/-- A hub for examples. -/
def demoHub : Hub where
  endpoint := "203.0.113.1:51820"
  listenPort := 51820
  address := .ofBytes 10 8 0 1
  poolCIDR := ⟨.ofBytes 10 8 0 0, 24⟩
  keys := ⟨"hubpriv", "hubpub"⟩
  params := ⟨4, 40, 70, 50, 100, 5, 6, 7, 8⟩
  dns := ""
  wanIface := "eth0"
  resolver := false
  resolverPort := 0

end Awg
end BeautyAwg
