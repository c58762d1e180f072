import BeautyAwg.Awg.Correctness.ClientFile
import BeautyAwg.Lib.Tunnel

/-!
# `Awg.Correctness.FilePeers`: the peers of the hub's file

`filePeers` reads the `[Peer]` sections of a file as the interface takes them: the public key, and every prefix that an
`AllowedIPs` line lists. Where no stored text breaks its line the printed file has the peers of `hubPeers` and no
others, so what is proved of `hubPeers` holds of the file.

## Contents
- **Reading.** `sectionPeer`, `filePeers`.
- **The hub's file.** `hubEnd`, `read_renderHub`, `filePeers_renderHub`.
-/

namespace BeautyAwg
namespace Awg

open Netip QuickConf Tunnel

/-! ## Reading -/

/-- A `[Peer]` section as the interface takes it: the last public key, and the prefixes of all `AllowedIPs` lines. -/
def sectionPeer (s : Section) : HubPeer :=
  ⟨(values s "PublicKey").getLastD "", (values s "AllowedIPs").flatMap fields⟩

/-- The peers of a file. -/
def filePeers (text : String) : Option (List HubPeer) := (read text).map fun e => e.peers.map sectionPeer

/-! ## The hub's file -/

/-- What the hub's file is meant to say, as one end of the tunnels. -/
def hubEnd (hub : Hub) (nodes : List Node) (clients : List Client) : End :=
  ⟨interfaceSection hub, (nodes.filter fun n => !n.isHub).map nodeSection ++ clients.map clientSection⟩

theorem read_renderHub {hub : Hub} {nodes : List Node} {clients : List Client} (hpriv : Clean hub.keys.priv)
    (hnodes : ∀ n ∈ nodes, n.isHub = false → PeerTexts n.name n.keys.pub n.preshared)
    (hclients : ∀ c ∈ clients, PeerTexts c.name c.keys.pub c.preshared) :
    read (renderHub hub nodes clients) = some (hubEnd hub nodes clients) := by
  refine read_of_parse (parse_renderHub hpriv hnodes hclients) rfl fun p hp => ?_
  rcases List.mem_append.mp hp with hp | hp
  · obtain ⟨n, -, rfl⟩ := List.mem_map.mp hp
    rfl
  · obtain ⟨c, -, rfl⟩ := List.mem_map.mp hp
    rfl

theorem values_peerSection (pub preshared allowed : String) :
    values (peerSection pub preshared allowed) "PublicKey" = [pub] ∧
      values (peerSection pub preshared allowed) "AllowedIPs" = [allowed] := by
  unfold values peerSection
  split <;> simp

theorem value_peerSection_allowed (pub preshared allowed : String) :
    value (peerSection pub preshared allowed) "AllowedIPs" = some allowed := by
  unfold value peerSection
  split <;> simp [List.lookup_cons]

theorem allowed_peerSection {pub preshared : String} {ips : List String} (hne : ips ≠ [])
    (hips : ∀ s ∈ ips, Clean s ∧ ',' ∉ s.toList) :
    allowed (peerSection pub preshared (", ".intercalate ips)) = ips := by
  unfold allowed
  rw [value_peerSection_allowed]
  exact fields_intercalate hne hips

/-- A block reads back as the peer that it prints. -/
theorem sectionPeer_peerSection {pub preshared : String} {ips : List String} (hne : ips ≠ [])
    (hips : ∀ s ∈ ips, Clean s ∧ ',' ∉ s.toList) :
    sectionPeer (peerSection pub preshared (", ".intercalate ips)) = ⟨pub, ips⟩ := by
  obtain ⟨hpub, hallowed⟩ := values_peerSection pub preshared (", ".intercalate ips)
  unfold sectionPeer
  rw [hpub, hallowed, List.flatMap_singleton, fields_intercalate hne hips]
  rfl

theorem sectionPeer_node (n : Node) : sectionPeer (nodeSection n) = n.peer := by
  refine sectionPeer_peerSection (List.cons_ne_nil _ _) fun s hs => ?_
  rcases List.mem_cons.mp hs with rfl | hs
  · exact host_listed _
  · obtain ⟨p, -, rfl⟩ := List.mem_map.mp hs
    exact prefix_listed p

theorem sectionPeer_client (c : Client) : sectionPeer (clientSection c) = c.peer := by
  have hone : clientSection c =
      peerSection c.keys.pub c.preshared (", ".intercalate [c.address.text ++ "/32"]) := by
    simp [clientSection]
  rw [hone]
  exact sectionPeer_peerSection (List.cons_ne_nil _ _) fun s hs => List.mem_singleton.mp hs ▸ host_listed _

/-- **The file's peers.** If no text breaks its line, the printed file has the peers of `hubPeers`, in their order. -/
theorem filePeers_renderHub {hub : Hub} {nodes : List Node} {clients : List Client} (hpriv : Clean hub.keys.priv)
    (hnodes : ∀ n ∈ nodes, n.isHub = false → PeerTexts n.name n.keys.pub n.preshared)
    (hclients : ∀ c ∈ clients, PeerTexts c.name c.keys.pub c.preshared) :
    filePeers (renderHub hub nodes clients) = some (hubPeers nodes clients) := by
  have hnode : ∀ n : Node, (sectionPeer ∘ nodeSection) n = n.peer := sectionPeer_node
  have hclient : ∀ c : Client, (sectionPeer ∘ clientSection) c = c.peer := sectionPeer_client
  unfold filePeers
  rw [read_renderHub hpriv hnodes hclients, Option.map_some, hubEnd, List.map_append, List.map_map, List.map_map,
    List.map_congr_left fun n _ => hnode n, List.map_congr_left fun c _ => hclient c]
  rfl

end Awg
end BeautyAwg
