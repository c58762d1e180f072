import Mathlib.Data.List.Basic
import BeautyAwg.Awg.ClientConf
import BeautyAwg.Awg.NodeConf
import BeautyAwg.Lib.LongestMatch
import BeautyAwg.Lib.NetipText

/-!
# `Awg.Peers`: who owns which address

The `AllowedIPs` of the rendered files as lists of printed prefixes, and the addresses they cover: of the
hub's peers (`hubPeers`), with the peer each address is sent to (`hubRoute`), and of the only peer of a home
server or a device, the hub (`nodeAllowedIPs`, `clientAllowedIPs`).
-/

namespace BeautyAwg
namespace Awg

open Netip

/-- A peer of the hub's interface, with the prefixes its `AllowedIPs` line lists. -/
structure HubPeer where
  pub : String
  allowed : List String
  deriving DecidableEq, Repr

/-- A home server as a peer of the hub: its address and its subnets are let in. -/
def Node.peer (n : Node) : HubPeer := ⟨n.keys.pub, (n.address.text ++ "/32") :: n.subnets.map Prefix.text⟩

/-- A device as a peer of the hub: its address is let in. -/
def Client.peer (c : Client) : HubPeer := ⟨c.keys.pub, [c.address.text ++ "/32"]⟩

/-- The peers of `RenderHub`, in the order it prints them. -/
def hubPeers (nodes : List Node) (clients : List Client) : List HubPeer :=
  (nodes.filter fun n => !n.isHub).map Node.peer ++ clients.map Client.peer

/-- The peer owns the address: one of its prefixes contains it. -/
def HubPeer.owns (p : HubPeer) (a : Addr) : Prop := coveredBy p.allowed a = true

instance (p : HubPeer) (a : Addr) : Decidable (p.owns a) := inferInstanceAs (Decidable (_ = true))

/-- The prefixes of the peer's line, as entries of the interface's routing table. -/
def HubPeer.entries (p : HubPeer) : List (Prefix × HubPeer) := (p.allowed.filterMap parsePrefix).map fun q => (q, p)

/-- The peer that the hub's interface sends an address to. -/
def hubRoute (peers : List HubPeer) (a : Addr) : Option HubPeer := longestMatch (peers.flatMap HubPeer.entries) a

/-- The blocks of `RenderHub` print the peers. -/
theorem renderHub_peers (hub : Hub) (nodes : List Node) (clients : List Client) :
    renderHub hub nodes clients = interfaceBlock hub ++
      String.join ((nodes.filter fun n => !n.isHub).map fun n =>
        peerBlock "node" n.name n.peer.pub n.preshared (", ".intercalate n.peer.allowed)) ++
      String.join (clients.map fun c =>
        peerBlock "client" c.name c.peer.pub c.preshared (", ".intercalate c.peer.allowed)) := rfl

theorem HubPeer.owns_iff {p : HubPeer} {a : Addr} : p.owns a ↔ ∃ e ∈ p.entries, e.1.contains a = true := by
  simp only [HubPeer.owns, coveredBy, HubPeer.entries, List.any_eq_true, Option.any_eq_true, List.mem_map,
    List.mem_filterMap]
  constructor
  · rintro ⟨s, hs, q, hq, hc⟩
    exact ⟨(q, p), ⟨q, ⟨s, hs, hq⟩, rfl⟩, hc⟩
  · rintro ⟨_, ⟨q, ⟨s, hs, hq⟩, rfl⟩, hc⟩
    exact ⟨s, hs, q, hq, hc⟩

/-- The one peer that owns an address gets what is sent to it. -/
theorem hubRoute_eq {peers : List HubPeer} {p : HubPeer} {a : Addr} (hp : p ∈ peers) (ha : p.owns a)
    (honly : ∀ p' ∈ peers, p'.owns a → p' = p) : hubRoute peers a = some p := by
  refine longestMatch_eq ?_ fun e he hc => ?_
  · obtain ⟨e, he, hc⟩ := HubPeer.owns_iff.mp ha
    exact ⟨e, List.mem_flatMap.mpr ⟨p, hp, he⟩, hc⟩
  · obtain ⟨p', hp', he⟩ := List.mem_flatMap.mp he
    have howner : e.2 = p' := by
      obtain ⟨q, -, rfl⟩ := List.mem_map.mp he
      rfl
    rw [howner]
    exact honly p' hp' (HubPeer.owns_iff.mpr ⟨e, he, hc⟩)

/-- A node owns its tunnel address and its LANs. -/
theorem Node.owns_iff {n : Node} {a : Addr} :
    n.peer.owns a ↔ (Prefix.host n.address).contains a = true ∨ ∃ s ∈ n.subnets, s.contains a = true := by
  unfold HubPeer.owns Node.peer
  rw [coveredBy_host, coveredBy_map_text]

/-- A device owns its tunnel address. -/
theorem Client.owns_iff {c : Client} {a : Addr} :
    c.peer.owns a ↔ (Prefix.host c.address).contains a = true := by
  unfold HubPeer.owns Client.peer
  rw [coveredBy_host]
  simp [coveredBy]

/-- Listing each text once covers the same addresses. -/
theorem coveredBy_once {reach : List Prefix} {out : List String} {a : Addr} :
    coveredBy (reach.foldl (fun out s => if s.text ∈ out then out else out ++ [s.text]) out) a = true ↔
      coveredBy out a = true ∨ ∃ s ∈ reach, s.contains a = true := by
  induction reach generalizing out with
  | nil => simp
  | cons s l ih =>
    have hstep : coveredBy (if s.text ∈ out then out else out ++ [s.text]) a = true ↔
        coveredBy out a = true ∨ s.contains a = true := by
      have hs : coveredBy [s.text] a = true ↔ s.contains a = true := by
        have htext : coveredBy ([s].map Prefix.text) a = true ↔ _ := coveredBy_map_text
        simpa using htext
      split
      · rename_i hmem
        refine ⟨Or.inl, fun h => h.elim (fun h => h) fun hc => ?_⟩
        obtain ⟨q, hq, hqc⟩ := (List.any_eq_true.mp (hs.mpr hc))
        obtain rfl := List.mem_singleton.mp hq
        exact List.any_eq_true.mpr ⟨_, hmem, hqc⟩
      · rw [← hs]
        simp [coveredBy]
    rw [List.foldl_cons, ih, hstep]
    simp only [List.mem_cons, exists_eq_or_imp, or_assoc]

/-- A home server sends the pool and the linked LANs into the tunnel. -/
theorem nodeAllowedIPs_covers {hub : Hub} {reach : List Prefix} {a : Addr} :
    coveredBy (nodeAllowedIPs hub reach) a = true ↔
      hub.poolCIDR.contains a = true ∨ ∃ s ∈ reach, s.contains a = true := by
  unfold nodeAllowedIPs
  rw [coveredBy_once]
  have hpool : coveredBy ([hub.poolCIDR].map Prefix.text) a = true ↔ _ := coveredBy_map_text
  simpa using or_congr_left hpool

/-! ## Devices -/

/-- The address lies in a destination the grant permits. -/
def Grant.reaches (g : Grant) (a : Addr) : Prop := ∃ s ∈ g.dests, s.contains a = true

/-- The grants send everything into the tunnel: a node exit, or the default route as a destination. -/
def TunnelsAll (granted : List Grant) : Prop :=
  ∃ g ∈ granted, g.nodeExit = true ∨ ⟨.v4 0, 0⟩ ∈ g.dests

instance (granted : List Grant) : Decidable (TunnelsAll granted) :=
  inferInstanceAs (Decidable (∃ _ ∈ _, _ ∨ _))

/-- Keeping one rule of each destination's text keeps what the destinations contain. -/
theorem dests_of_rules {rules : List GrantRule} {out : List Prefix} {a : Addr} :
    (∃ s ∈ rules.foldl (fun out r => if out.any fun d => d.text == r.dest.text then out else out ++ [r.dest]) out,
      s.contains a = true) ↔ (∃ s ∈ out, s.contains a = true) ∨ ∃ r ∈ rules, r.dest.contains a = true := by
  induction rules generalizing out with
  | nil => simp
  | cons r l ih =>
    have hstep : (∃ s ∈ (if out.any fun d => d.text == r.dest.text then out else out ++ [r.dest]),
        s.contains a = true) ↔ (∃ s ∈ out, s.contains a = true) ∨ r.dest.contains a = true := by
      split
      · rename_i hany
        refine ⟨Or.inl, fun h => h.elim (fun h => h) fun hc => ?_⟩
        obtain ⟨d, hd, he⟩ := List.any_eq_true.mp hany
        have hparse : parsePrefix d.text = some r.dest := by
          rw [beq_iff_eq.mp he]
          exact parsePrefix_text (Prefix.isValid_of_contains hc)
        exact ⟨d, hd, (parsePrefix_text_iff.mp hparse).2 ▸ hc⟩
      · simp [or_and_right, exists_or]
    rw [List.foldl_cons, ih, hstep]
    simp only [List.mem_cons, exists_eq_or_imp, or_assoc]

theorem Grant.reaches_iff {g : Grant} {a : Addr} : g.reaches a ↔
    if g.rules = [] then ∃ s ∈ g.subnets, s.contains a = true else ∃ r ∈ g.rules, r.dest.contains a = true := by
  unfold Grant.reaches Grant.dests
  split
  · exact Iff.rfl
  · rw [dests_of_rules]
    simp

theorem parse_fullTunnel : parsePrefix fullTunnel = some ⟨.v4 0, 0⟩ := by decide +kernel

/-- The list is cut down to the default route when a grant asks for it. -/
theorem fullTunnel_mem (hub : Hub) {granted : List Grant} :
    fullTunnel ∈ (hub.address.text ++ "/32") :: granted.flatMap Grant.allowedTexts ↔ TunnelsAll granted := by
  have hhost : fullTunnel ≠ hub.address.text ++ "/32" := fun h => by
    have hparse := parse_fullTunnel
    rw [h, parsePrefix_host] at hparse
    split at hparse
    · exact absurd (congrArg Prefix.bits (Option.some.inj hparse)) (by simp [Prefix.host])
    · exact absurd hparse (by simp)
  have htext : ∀ d : Prefix, d.text = fullTunnel ↔ ⟨.v4 0, 0⟩ = d := fun d => by
    constructor
    · intro h
      exact (parsePrefix_text_iff.mp (h ▸ parse_fullTunnel)).2.symm
    · rintro rfl
      decide +kernel
  rw [List.mem_cons, or_iff_right hhost]
  simp only [TunnelsAll, List.mem_flatMap, Grant.allowedTexts, List.mem_append, List.mem_map, htext, exists_eq_right']
  refine exists_congr fun g => and_congr_right fun _ => or_congr ?_ Iff.rfl
  cases g.nodeExit <;> simp

theorem fullTunnel_mem_iff {hub : Hub} {granted : List Grant} :
    fullTunnel ∈ clientAllowedIPs hub granted ↔ TunnelsAll granted := by
  rw [← fullTunnel_mem hub]
  simp only [clientAllowedIPs]
  split
  · rename_i hmem
    exact ⟨fun _ => hmem, fun _ => List.mem_singleton.mpr rfl⟩
  · exact Iff.rfl

/-- **A device's own half.** What its `AllowedIPs` cover: all of IPv4 when a grant asks for it, else the
    hub's address and the grants' destinations. -/
theorem clientAllowedIPs_covers {hub : Hub} {granted : List Grant} {a : Addr} :
    coveredBy (clientAllowedIPs hub granted) a = true ↔
      if TunnelsAll granted then a.is4 = true
      else (Prefix.host hub.address).contains a = true ∨ ∃ g ∈ granted, g.reaches a := by
  unfold clientAllowedIPs
  simp only [fullTunnel_mem]
  split
  · simp only [coveredBy, List.any_cons, List.any_nil, Bool.or_false, parse_fullTunnel, Option.any_some]
    cases a with
    | v4 y => simp [Prefix.contains, Addr.is4, BitVec.ushiftRight_eq_zero]
    | invalid | v6 => simp [Prefix.contains, Addr.is4]
  · rename_i hnot
    have hexit : ∀ g ∈ granted, g.allowedTexts = g.dests.map Prefix.text := fun g hg => by
      have hoff : g.nodeExit = false := by
        by_contra h
        exact hnot ⟨g, hg, Or.inl (by simpa using h)⟩
      simp [Grant.allowedTexts, hoff]
    have hflat : granted.flatMap Grant.allowedTexts = (granted.flatMap Grant.dests).map Prefix.text := by
      rw [List.map_flatMap]
      exact List.flatMap_congr hexit
    rw [hflat, coveredBy_host, coveredBy_map_text]
    refine or_congr_right ?_
    constructor
    · rintro ⟨s, hs, hc⟩
      obtain ⟨g, hg, hs⟩ := List.mem_flatMap.mp hs
      exact ⟨g, hg, s, hs, hc⟩
    · rintro ⟨g, hg, s, hs, hc⟩
      exact ⟨s, List.mem_flatMap.mpr ⟨g, hg, hs⟩, hc⟩

end Awg
end BeautyAwg
