import BeautyAwg.Awg.Nft

/-!
# `Awg.Correctness.NftMeaning`: what the forward chain accepts

`forwardChain` is compared with a statement of its purpose that mentions no rule: an established flow, a
grant whose terms cover the packet (`Grant.Permits`), or a link whose ends do (`NodeLink.Permits`).

The proof goes chain → rule list → one grant's or link's rules: `Chain.accepts_iff` reduces acceptance to
a matching accept rule, and one lemma per rule generator (`nftRuleLines`, `nftGrantRules`,
`nftLinkRules`) says when it has one.
-/

namespace BeautyAwg
namespace Awg

open Netip Nft

/-! ## The intended meaning -/

/-- The rule's protocol field names no protocol. -/
def GrantRule.AnyProto (r : GrantRule) : Prop := r.proto = "" ∨ r.proto = "any"

/-- The access-level rule covers the packet: its destination, and its ports and protocol. A port range
    without a protocol is a range of tcp and of udp ports. -/
def GrantRule.Permits (r : GrantRule) (p : Packet) : Prop :=
  r.dest.contains (.v4 p.dst) = true ∧
    if 0 < r.portFrom then
      (r.portFrom ≤ p.dport.toNat ∧ (p.dport.toNat : Int) ≤ max r.portFrom r.portTo) ∧
        ((r.AnyProto ∧ (p.proto = .tcp ∨ p.proto = .udp)) ∨
          (¬ r.AnyProto ∧ L4.named r.proto = some p.proto))
    else r.AnyProto ∨ L4.named r.proto = some p.proto

/-- The address lies inside the mesh: in a LAN of a non-hub node or in the pool. -/
def InMesh (hub : Hub) (nodes : List Node) (y : BitVec 32) : Prop :=
  (∃ n ∈ nodes, n.isHub = false ∧ ∃ s ∈ n.subnets, s.contains (.v4 y) = true) ∨
    hub.poolCIDR.contains (.v4 y) = true

/-- The grant opens the packet's flow: the WAN for a hub exit, what lies outside the mesh for a node exit,
    and the node's subnets or the rules' destinations for anything but a hub exit. -/
def Grant.Permits (hub : Hub) (nodes : List Node) (g : Grant) (p : Packet) : Prop :=
  (g.isExit = true ∧ p.oif = hub.wanIface) ∨
  (g.isExit = false ∧ g.nodeExit = true ∧ ¬ InMesh hub nodes p.dst) ∨
  (g.isExit = false ∧ g.rules = [] ∧ ∃ s ∈ g.subnets, s.contains (.v4 p.dst) = true) ∨
  (g.isExit = false ∧ ∃ r ∈ g.rules, r.Permits p)

/-- The link carries the packet from the source node or one of its LANs to a destination LAN. -/
def NodeLink.Permits (l : NodeLink) (p : Packet) : Prop :=
  (l.srcAddr = .v4 p.src ∨ ∃ s ∈ l.srcSubnets, s.contains (.v4 p.src) = true) ∧
    ∃ d ∈ l.dstSubnets, d.contains (.v4 p.dst) = true

/-! ## Rule generators -/

variable {hub : Hub} {nodes : List Node} {p : Packet}

theorem mem_nftMesh_contains {y : BitVec 32} :
    (∃ q ∈ nftMesh hub nodes, q.contains (.v4 y) = true) ↔ InMesh hub nodes y := by
  unfold nftMesh InMesh
  by_cases hv : hub.poolCIDR.isValid = true
  · simp only [hv, if_true, List.mem_append, List.mem_flatMap, List.mem_filter, List.mem_singleton,
      Bool.not_eq_true']
    constructor
    · rintro ⟨q, ⟨n, ⟨hn, hh⟩, hq⟩ | rfl, hc⟩
      · exact Or.inl ⟨n, hn, hh, q, hq, hc⟩
      · exact Or.inr hc
    · rintro (⟨n, hn, hh, q, hq, hc⟩ | hc)
      · exact ⟨q, Or.inl ⟨n, ⟨hn, hh⟩, hq⟩, hc⟩
      · exact ⟨_, Or.inr rfl, hc⟩
  · rw [Bool.not_eq_true] at hv
    simp only [hv, Prefix.contains_of_isValid_false hv, Bool.false_eq_true, if_false, or_false, List.append_nil,
      List.mem_flatMap, List.mem_filter, Bool.not_eq_true']
    constructor
    · rintro ⟨q, ⟨n, ⟨hn, hh⟩, hq⟩, hc⟩
      exact ⟨n, hn, hh, q, hq, hc⟩
    · rintro ⟨n, hn, hh, q, hq, hc⟩
      exact ⟨q, ⟨n, ⟨hn, hh⟩, hq⟩, hc⟩

theorem acceptFlow_admits {src dst : Operand} {rest : List Match} :
    (acceptFlow src dst rest).admits p ↔
      src.covers p.src = true ∧ dst.covers p.dst = true ∧ ∀ m ∈ rest, m.holds p = true := by
  simp [acceptFlow, Rule.admits, Match.holds]

theorem covers_addr {a : Addr} {y : BitVec 32} : (Operand.addr a).covers y = true ↔ a = .v4 y := by
  simp [Operand.covers]

theorem covers_net {q : Prefix} {y : BitVec 32} :
    (Operand.net q).covers y = true ↔ q.contains (.v4 y) = true := Iff.rfl

/-- The port matcher is the closed range up to the larger bound. -/
theorem portMatch_holds {r : GrantRule} {proto : String} :
    (r.portMatch proto).holds p = true ↔
      L4.named proto = some p.proto ∧ r.portFrom ≤ p.dport.toNat ∧
        (p.dport.toNat : Int) ≤ max r.portFrom r.portTo := by
  unfold GrantRule.portMatch
  split
  · have hmax : max r.portFrom r.portTo = r.portTo := by omega
    simp [Match.holds, hmax, and_assoc]
  · have hmax : max r.portFrom r.portTo = r.portFrom := by omega
    simp [Match.holds, hmax, and_assoc]

theorem nftRuleLine_admits {client : Addr} {r : GrantRule} {proto : String} :
    (nftRuleLine client r proto).admits p ↔
      client = .v4 p.src ∧ r.dest.contains (.v4 p.dst) = true ∧ L4.named proto = some p.proto ∧
        (0 < r.portFrom → r.portFrom ≤ p.dport.toNat ∧
          (p.dport.toNat : Int) ≤ max r.portFrom r.portTo) := by
  unfold nftRuleLine
  rw [acceptFlow_admits, covers_addr, covers_net]
  by_cases hport : 0 < r.portFrom
  · simp [hport, portMatch_holds]
  · simp [hport, Match.holds]

/-- One access-level rule's lines accept what the rule permits. -/
theorem nftRuleLines_admits {client : Addr} {r : GrantRule} :
    (∃ l ∈ nftRuleLines client r, l.admits p) ↔ client = .v4 p.src ∧ r.Permits p := by
  unfold nftRuleLines GrantRule.Permits GrantRule.AnyProto
  have htcp : L4.named "tcp" = some p.proto ↔ p.proto = .tcp := by simp [L4.named, eq_comm]
  have hudp : L4.named "udp" = some p.proto ↔ p.proto = .udp := by simp [L4.named, eq_comm]
  by_cases hany : r.proto = "" ∨ r.proto = "any" <;> by_cases hport : 0 < r.portFrom
  · simp only [hany, hport, if_true, List.map_cons, List.map_nil, List.mem_cons, List.not_mem_nil, or_false,
      exists_eq_or_imp, exists_eq_left, nftRuleLine_admits, htcp, hudp, true_and, not_true_eq_false,
      false_and, forall_const]
    tauto
  · simp [hany, hport, acceptFlow_admits, covers_addr, covers_net]
  · simp only [hany, hport, if_true, if_false, List.mem_singleton, exists_eq_left, nftRuleLine_admits,
      false_and, false_or, not_false_eq_true, true_and, forall_const]
    tauto
  · simp [hany, hport, nftRuleLine_admits]

/-- One grant's rules accept what the grant permits to its client. -/
theorem nftGrantRules_admits {g : Grant} :
    (∃ l ∈ nftGrantRules hub (nftMesh hub nodes) g, l.admits p) ↔
      g.clientAddr = .v4 p.src ∧ g.Permits hub nodes p := by
  unfold nftGrantRules Grant.Permits
  cases hexit : g.isExit with
  | true => simp [Rule.admits, Match.holds, Operand.covers]
  | false =>
    -- the node-exit line, present or not
    have hnode : (∃ l ∈ (if g.nodeExit then
          [(⟨.saddr (.addr g.clientAddr) ::
            (if nftMesh hub nodes = [] then [] else [.daddrNotIn (nftMesh hub nodes)]), .accept⟩ : Rule)]
        else []), l.admits p) ↔
        g.clientAddr = .v4 p.src ∧ g.nodeExit = true ∧ ¬ InMesh hub nodes p.dst := by
      rw [← mem_nftMesh_contains]
      cases g.nodeExit <;> by_cases hm : nftMesh hub nodes = [] <;>
        simp [hm, Rule.admits, Match.holds, Operand.covers]
    -- the node's subnets or the rules' destinations
    have hdest : (∃ l ∈ (if g.rules = [] then
          g.subnets.map fun s => acceptFlow (.addr g.clientAddr) (.net s)
        else g.rules.flatMap (nftRuleLines g.clientAddr)), l.admits p) ↔
        g.clientAddr = .v4 p.src ∧ ((g.rules = [] ∧ ∃ s ∈ g.subnets, s.contains (.v4 p.dst) = true) ∨
          ∃ r ∈ g.rules, r.Permits p) := by
      by_cases hr : g.rules = []
      · simp [hr, acceptFlow_admits, covers_addr, covers_net]
        tauto
      · simp only [hr, if_false, List.mem_flatMap, false_and, false_or]
        constructor
        · rintro ⟨l, ⟨r, hmem, hl⟩, hadm⟩
          obtain ⟨hc, hp⟩ := nftRuleLines_admits.mp ⟨l, hl, hadm⟩
          exact ⟨hc, r, hmem, hp⟩
        · rintro ⟨hc, r, hmem, hp⟩
          obtain ⟨l, hl, hadm⟩ := nftRuleLines_admits.mpr ⟨hc, hp⟩
          exact ⟨l, ⟨r, hmem, hl⟩, hadm⟩
    simp only [Bool.false_eq_true, if_false, List.mem_append, or_and_right, exists_or, hnode, hdest,
      false_and, false_or, true_and, ← and_or_left]

theorem nftLinkRules_admits {l : NodeLink} : (∃ r ∈ nftLinkRules l, r.admits p) ↔ l.Permits p := by
  unfold nftLinkRules NodeLink.Permits
  simp only [List.mem_flatMap, List.mem_append, List.mem_map]
  constructor
  · rintro ⟨r, ⟨d, hd, hr | ⟨s, hs, rfl⟩⟩, hadm⟩
    · split at hr
      · rw [List.mem_singleton] at hr
        subst hr
        simp only [acceptFlow_admits, covers_net, host_contains] at hadm
        exact ⟨Or.inl hadm.1, d, hd, hadm.2.1⟩
      · exact absurd hr List.not_mem_nil
    · simp only [acceptFlow_admits, covers_net] at hadm
      exact ⟨Or.inr ⟨s, hs, hadm.1⟩, d, hd, hadm.2.1⟩
  · rintro ⟨hsrc | ⟨s, hs, hsc⟩, d, hd, hdc⟩
    · refine ⟨acceptFlow (.net (.host l.srcAddr)) (.net d), ⟨d, hd, Or.inl ?_⟩, acceptFlow_admits.mpr
        ⟨covers_net.mpr (host_contains.mpr hsrc), covers_net.mpr hdc, by simp⟩⟩
      rw [hsrc]
      exact List.mem_singleton.mpr rfl
    · exact ⟨_, ⟨d, hd, Or.inr ⟨s, hs, rfl⟩⟩, acceptFlow_admits.mpr
        ⟨covers_net.mpr hsc, covers_net.mpr hdc, by simp⟩⟩

/-! ## The chain -/

theorem nftRuleLines_stmt {client : Addr} {r : GrantRule} {l : Rule} (h : l ∈ nftRuleLines client r) :
    l.stmt = .accept := by
  unfold nftRuleLines at h
  split at h
  · split at h
    · obtain ⟨proto, -, rfl⟩ := List.mem_map.mp h
      rfl
    · rw [List.mem_singleton] at h
      subst h; rfl
  · rw [List.mem_singleton] at h
    subst h; rfl

theorem nftGrantRules_stmt {mesh : List Prefix} {g : Grant} {l : Rule}
    (h : l ∈ nftGrantRules hub mesh g) : l.stmt = .accept := by
  unfold nftGrantRules at h
  split at h
  · rw [List.mem_singleton] at h
    subst h; rfl
  · rcases List.mem_append.mp h with h | h
    · split at h
      · rw [List.mem_singleton] at h
        subst h; rfl
      · exact absurd h List.not_mem_nil
    · split at h
      · obtain ⟨s, -, rfl⟩ := List.mem_map.mp h
        rfl
      · obtain ⟨r, -, hl⟩ := List.mem_flatMap.mp h
        exact nftRuleLines_stmt hl

theorem nftLinkRules_stmt {k : NodeLink} {l : Rule} (h : l ∈ nftLinkRules k) : l.stmt = .accept := by
  obtain ⟨d, -, hl⟩ := List.mem_flatMap.mp h
  rcases List.mem_append.mp hl with hl | hl
  · split at hl
    · rw [List.mem_singleton] at hl
      subst hl; rfl
    · exact absurd hl List.not_mem_nil
  · obtain ⟨s, -, rfl⟩ := List.mem_map.mp hl
    rfl

variable {grants : List Grant} {links : List NodeLink}

/-- Every statement of the chain accepts or only rewrites. -/
theorem forwardChain_filters : (forwardChain hub nodes grants links).Filters := by
  refine ⟨rfl, fun l hl => ?_⟩
  simp only [forwardChain, List.mem_cons, List.cons_append, List.mem_append, List.mem_flatMap] at hl
  rcases hl with rfl | rfl | ⟨g, -, hl⟩ | ⟨k, -, hl⟩
  · exact Or.inr rfl
  · exact Or.inl rfl
  · exact Or.inl (nftGrantRules_stmt hl)
  · exact Or.inl (nftLinkRules_stmt hl)

/-- **The forward chain**, grant by grant and link by link. -/
theorem forwardChain_accepts :
    (forwardChain hub nodes grants links).accepts p = true ↔
      (p.ct = .established ∨ p.ct = .related) ∨
      (∃ g ∈ grants, g.clientAddr = .v4 p.src ∧ g.Permits hub nodes p) ∨
      ∃ l ∈ links, l.Permits p := by
  rw [Chain.accepts_iff forwardChain_filters]
  have hclamp : ¬ (mssClamp hub).admits p := fun h => absurd h.1 (by simp [mssClamp])
  have hct : Rule.admits ⟨[.ctState [.established, .related]], .accept⟩ p ↔
      p.ct = .established ∨ p.ct = .related := by
    simp [Rule.admits, Match.holds]
  simp only [forwardChain, List.cons_append, List.mem_cons, exists_eq_or_imp, hclamp, false_or, hct]
  simp only [List.mem_append, or_and_right, exists_or, List.mem_flatMap]
  refine or_congr Iff.rfl (or_congr ?_ ?_)
  · constructor
    · rintro ⟨l, ⟨g, hg, hl⟩, hadm⟩
      exact ⟨g, hg, nftGrantRules_admits.mp ⟨l, hl, hadm⟩⟩
    · rintro ⟨g, hg, hp⟩
      obtain ⟨l, hl, hadm⟩ := nftGrantRules_admits.mpr hp
      exact ⟨l, ⟨g, hg, hl⟩, hadm⟩
  · constructor
    · rintro ⟨r, ⟨l, hl, hr⟩, hadm⟩
      exact ⟨l, hl, nftLinkRules_admits.mp ⟨r, hr, hadm⟩⟩
    · rintro ⟨l, hl, hp⟩
      obtain ⟨r, hr, hadm⟩ := nftLinkRules_admits.mpr hp
      exact ⟨r, ⟨l, hl, hr⟩, hadm⟩

/-- **The exact meaning of the rendered ACL.** The forward chain accepts a packet iff it belongs to an
    established flow; or some grant of its source is a hub exit and the packet leaves by the WAN interface,
    or is no hub exit and is a node exit with the destination outside the mesh, covers the node's subnets
    with the destination in one, or has a rule that permits it; or some link carries it. What nft reads from the
    printed text is this chain (`Awg.renderNFT_reads_back`, `Awg.renderNFT_forwardChain`); where the pool and all
    subnets are IPv4 and the environment fits, that is so for every snapshot (`Api.ruleset_text`). -/
theorem renderNFT_forward_iff (hub : Hub) (nodes : List Node) (grants : List Grant) (links : List NodeLink)
    (p : Packet) :
    (forwardChain hub nodes grants links).accepts p = true ↔
      (p.ct = .established ∨ p.ct = .related) ∨
      (∃ g ∈ grants, g.clientAddr = .v4 p.src ∧
        if g.isExit then p.oif = hub.wanIface else
          (g.nodeExit = true ∧ hub.poolCIDR.contains (.v4 p.dst) = false ∧
            ∀ n ∈ nodes, n.isHub = false → ∀ s ∈ n.subnets, s.contains (.v4 p.dst) = false) ∨
          (g.rules = [] ∧ ∃ s ∈ g.subnets, s.contains (.v4 p.dst) = true) ∨
          ∃ r ∈ g.rules, r.Permits p) ∨
      ∃ l ∈ links, l.Permits p := by
  rw [forwardChain_accepts]
  refine or_congr Iff.rfl (or_congr (exists_congr fun g => and_congr Iff.rfl (and_congr Iff.rfl ?_)) Iff.rfl)
  have hmesh : ¬ InMesh hub nodes p.dst ↔ hub.poolCIDR.contains (.v4 p.dst) = false ∧
      ∀ n ∈ nodes, n.isHub = false → ∀ s ∈ n.subnets, s.contains (.v4 p.dst) = false := by
    simp only [InMesh, not_or, not_exists, not_and, Bool.not_eq_true]
    exact and_comm
  unfold Grant.Permits
  rw [hmesh]
  cases g.isExit <;> simp

end Awg
end BeautyAwg
