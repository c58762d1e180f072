import BeautyAwg.Lib.NetipText
import BeautyAwg.Lib.QuickConf

/-!
# `Tunnel`: the two ends of a tunnel

A WireGuard interface has a private key and a list of peers. Two interfaces can talk to each other when each lists the
other's public key, they hold the same preshared key, agree on the parameters that both have to set, and each lets the
other's tunnel address through. `pubOf` takes a private key to its public one.

## Contents
- **Reading.** `value`, `values`, `allowed`, `address`; `End`, `read`.
- **Matching.** `Lists`, `Pair`.
-/

namespace Tunnel

open QuickConf Netip

/-! ## Reading -/

/-- The first entry under the key. -/
def value (s : Section) (key : String) : Option String := s.entries.lookup key

/-- Everything a section gives a key, one line after the other. -/
def values (s : Section) (key : String) : List String := (s.entries.filter fun e => e.1 = key).map Prod.snd

/-- The entries of `AllowedIPs`. -/
def allowed (s : Section) : List String := ((value s "AllowedIPs").map fields).getD []

/-- The tunnel address, without its length. -/
def address (s : Section) : Option Addr := ((value s "Address").bind parsePrefix).map Prefix.addr

/-- An interface with its peers. -/
structure End where
  self : Section
  peers : List Section
  deriving DecidableEq, Repr

/-- The end that a file describes: its own section first, then its peers. -/
def read (text : String) : Option End :=
  match parse text with
  | some (s :: ps) => if s.name = "Interface" ∧ ∀ p ∈ ps, p.name = "Peer" then some ⟨s, ps⟩ else none
  | _ => none

/-- A file with an interface section in front and peers behind it reads as a tunnel's end. -/
theorem read_of_parse {text : String} {s : Section} {ps : List Section} (h : parse text = some (s :: ps))
    (hself : s.name = "Interface") (hpeers : ∀ p ∈ ps, p.name = "Peer") : read text = some ⟨s, ps⟩ := by
  unfold read
  rw [h]
  exact if_pos ⟨hself, hpeers⟩

/-! ## Matching -/

section Matching

variable (pubOf : String → String)

/-- The peer is the interface: its public key belongs to the private one, and its `AllowedIPs` let the address
    through. -/
structure Lists (peer : Section) (a : End) : Prop where
  key : ∃ priv, value a.self "PrivateKey" = some priv ∧ value peer "PublicKey" = some (pubOf priv)
  address : ∃ x, address a.self = some x ∧ coveredBy (allowed peer) x = true

/-- Each end lists the other; `shared` are the keys that both have to set alike. -/
def Pair (shared : List String) (a b : End) : Prop :=
  ∃ peerA ∈ a.peers, ∃ peerB ∈ b.peers, Lists pubOf peerA b ∧ Lists pubOf peerB a ∧
    value peerA "PresharedKey" = value peerB "PresharedKey" ∧
    ∀ k ∈ shared, (value a.self k).isSome = true ∧ value a.self k = value b.self k

end Matching

end Tunnel
