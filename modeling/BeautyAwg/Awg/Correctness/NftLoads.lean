import BeautyAwg.Awg.Nft

/-!
# `Awg.Correctness.NftLoads`: when `nft` takes the ruleset

`nft -f` refuses a file as a whole for one operand it cannot read, and the ruleset that was loaded before
stays in force. `GrantReads` and `LinkReads` say what the parts of a snapshot have to look like;
`nft_reads` puts them together, one lemma for each rule generator on the way. What the panel's environment sets,
the WAN interface and the resolver's port, has to fit as well (`EnvFits`), and then the file is taken
(`nftLoads_iff`).

## Contents
- **What can be read.** `DnsReads`, `RuleReads`, `GrantReads`, `LinkReads`.
- **Rule generators**, one lemma each; `nft_reads`.
- **The environment.** `EnvFits`, `nftLoads_iff`.
-/

namespace BeautyAwg
namespace Awg

open Netip Nft

/-! ## What can be read -/

/-- A DNS server that `dnat` can name, or none. -/
def DnsReads (dns : String) : Prop := dns = "" ∨ (Stmt.dnat dns).reads = true

instance (dns : String) : Decidable (DnsReads dns) := inferInstanceAs (Decidable (_ ∨ _))

/-- The rule's destination is IPv4, its protocol is a known one and its ports are ports. -/
structure RuleReads (r : GrantRule) : Prop where
  dest : r.dest.is4 = true
  proto : r.proto = "any" ∨ r.proto = "tcp" ∨ r.proto = "udp"
  portFrom : r.portFrom ≤ 65535
  portTo : r.portTo ≤ 65535

/-- With the resolver on no rule mentions the node's own DNS server. -/
structure GrantReads (hub : Hub) (g : Grant) : Prop where
  client : g.clientAddr.is4 = true
  subnets : ∀ s ∈ g.subnets, s.is4 = true
  rules : ∀ r ∈ g.rules, RuleReads r
  dns : hub.resolver = false → DnsReads g.nodeDNS

/-- Everything that the ruleset prints of the link is IPv4. -/
structure LinkReads (l : NodeLink) : Prop where
  src : l.srcAddr.is4 = true
  srcSubnets : ∀ s ∈ l.srcSubnets, s.is4 = true
  dstSubnets : ∀ s ∈ l.dstSubnets, s.is4 = true

/-! ## Rule generators -/

variable {hub : Hub} {nodes : List Node} {grants : List Grant} {links : List NodeLink}

theorem acceptFlow_reads {src dst : Operand} {rest : List Match} (hsrc : src.is4 = true) (hdst : dst.is4 = true)
    (hrest : ∀ m ∈ rest, m.reads = true) : (acceptFlow src dst rest).reads = true := by
  simp only [acceptFlow, Rule.reads, List.all_cons, Match.reads, hsrc, hdst, Bool.true_and, Stmt.reads,
    Bool.and_true, List.all_eq_true]
  exact hrest

theorem portMatch_reads {r : GrantRule} {proto : String} (hr : RuleReads r) (hport : 0 < r.portFrom)
    (hproto : (L4.named proto).isSome = true) : (r.portMatch proto).reads = true := by
  have hfrom := hr.portFrom
  have hto := hr.portTo
  unfold GrantRule.portMatch
  split
  · simp only [Match.reads, hproto, Bool.true_and, Option.all_some, Bool.and_eq_true, decide_eq_true_eq]
    omega
  · simp only [Match.reads, hproto, Bool.true_and, Option.all_none, Bool.and_true, decide_eq_true_eq]
    omega

theorem nftRuleLine_reads {client : Addr} {r : GrantRule} {proto : String} (hclient : client.is4 = true)
    (hr : RuleReads r) (hproto : (L4.named proto).isSome = true) : (nftRuleLine client r proto).reads = true := by
  refine acceptFlow_reads hclient hr.dest fun m hm => ?_
  rw [List.mem_singleton.mp hm]
  split
  · rename_i hport
    exact portMatch_reads hr hport hproto
  · exact hproto

theorem nftRuleLines_reads {client : Addr} {r : GrantRule} (hclient : client.is4 = true) (hr : RuleReads r)
    {l : Rule} (hl : l ∈ nftRuleLines client r) : l.reads = true := by
  unfold nftRuleLines at hl
  split at hl
  · split at hl
    · obtain ⟨proto, hproto, rfl⟩ := List.mem_map.mp hl
      refine nftRuleLine_reads hclient hr ?_
      simp only [List.mem_cons, List.not_mem_nil, or_false] at hproto
      rcases hproto with rfl | rfl <;> rfl
    · rw [List.mem_singleton.mp hl]
      exact acceptFlow_reads hclient hr.dest fun m hm => absurd hm List.not_mem_nil
  · rename_i hany
    rw [List.mem_singleton.mp hl]
    refine nftRuleLine_reads hclient hr ?_
    rcases hr.proto with h | h | h
    -- `any` is not a protocol that a line names: it has the branches above
    · exact absurd (.inr h) hany
    · rw [h]
      rfl
    · rw [h]
      rfl

/-- The mesh is IPv4 where the pool and the nodes' LANs are. -/
theorem nftMesh_is4 (hpool : hub.poolCIDR.is4 = true) (hnodes : ∀ n ∈ nodes, ∀ s ∈ n.subnets, s.is4 = true) :
    ∀ p ∈ nftMesh hub nodes, p.is4 = true := by
  intro p hp
  rcases List.mem_append.mp hp with hp | hp
  · obtain ⟨n, hn, hs⟩ := List.mem_flatMap.mp hp
    exact hnodes n (List.mem_filter.mp hn).1 p hs
  · split at hp
    · rw [List.mem_singleton.mp hp]
      exact hpool
    · exact absurd hp List.not_mem_nil

theorem nftGrantRules_reads {mesh : List Prefix} {g : Grant} (hmesh : ∀ p ∈ mesh, p.is4 = true)
    (hg : GrantReads hub g) {l : Rule} (hl : l ∈ nftGrantRules hub mesh g) : l.reads = true := by
  unfold nftGrantRules at hl
  split at hl
  · rw [List.mem_singleton.mp hl]
    simp [Rule.reads, Match.reads, Operand.is4, hg.client, Stmt.reads]
  · rcases List.mem_append.mp hl with hl | hl
    · split at hl
      · rw [List.mem_singleton.mp hl]
        have hset : mesh.all Prefix.is4 = true := List.all_eq_true.mpr hmesh
        split <;> simp [Rule.reads, Match.reads, Operand.is4, hg.client, Stmt.reads, hset]
      · exact absurd hl List.not_mem_nil
    · split at hl
      · obtain ⟨s, hs, rfl⟩ := List.mem_map.mp hl
        exact acceptFlow_reads hg.client (hg.subnets s hs) fun m hm => absurd hm List.not_mem_nil
      · obtain ⟨r, hr, hl⟩ := List.mem_flatMap.mp hl
        exact nftRuleLines_reads hg.client (hg.rules r hr) hl

theorem nftLinkRules_reads {k : NodeLink} (hk : LinkReads k) {l : Rule} (hl : l ∈ nftLinkRules k) :
    l.reads = true := by
  have hnone : ∀ m : Match, m ∈ [] → m.reads = true := fun m hm => absurd hm List.not_mem_nil
  obtain ⟨dst, hdst, hl⟩ := List.mem_flatMap.mp hl
  rcases List.mem_append.mp hl with hl | hl
  · split at hl
    · rw [List.mem_singleton.mp hl]
      have hhost : (Prefix.host k.srcAddr).is4 = true := by
        simp [Prefix.is4, Prefix.host, hk.src]
      exact acceptFlow_reads hhost (hk.dstSubnets dst hdst) hnone
    · exact absurd hl List.not_mem_nil
  · obtain ⟨src, hsrc, rfl⟩ := List.mem_map.mp hl
    exact acceptFlow_reads (hk.srcSubnets src hsrc) (hk.dstSubnets dst hdst) hnone

theorem dnsRules_reads {m : Match} {stmt : Stmt} (hm : m.reads = true) (hstmt : stmt.reads = true) {l : Rule}
    (hl : l ∈ dnsRules m stmt) : l.reads = true := by
  obtain ⟨proto, hproto, rfl⟩ := List.mem_map.mp hl
  have hport : (Match.dport proto 53 none).reads = true := by
    simp only [List.mem_cons, List.not_mem_nil, or_false] at hproto
    rcases hproto with rfl | rfl <;> decide
  simp only [Rule.reads, List.all_cons, List.all_nil, hm, hport, hstmt, Bool.and_self]

/-! ## The ruleset -/

theorem forwardChain_reads (hpool : hub.poolCIDR.is4 = true) (hnodes : ∀ n ∈ nodes, ∀ s ∈ n.subnets, s.is4 = true)
    (hgrants : ∀ g ∈ grants, GrantReads hub g) (hlinks : ∀ l ∈ links, LinkReads l) :
    (forwardChain hub nodes grants links).reads = true := by
  refine List.all_eq_true.mpr fun l hl => ?_
  simp only [forwardChain, List.cons_append, List.mem_cons, List.mem_append, List.mem_flatMap] at hl
  rcases hl with rfl | rfl | ⟨g, hg, hl⟩ | ⟨k, hk, hl⟩
  · unfold mssClamp
    split <;> rfl
  · rfl
  · exact nftGrantRules_reads (nftMesh_is4 hpool hnodes) (hgrants g hg) hl
  · exact nftLinkRules_reads (hlinks k hk) hl

theorem preroutingChain_reads (haddr : hub.address.is4 = true) (hgrants : ∀ g ∈ grants, GrantReads hub g) :
    (preroutingChain hub grants).reads = true := by
  refine List.all_eq_true.mpr fun l hl => ?_
  simp only [preroutingChain] at hl
  split at hl
  · split at hl
    · exact dnsRules_reads (m := .daddr (.addr hub.address)) haddr rfl hl
    · exact absurd hl List.not_mem_nil
  · rename_i hoff
    obtain ⟨g, hg, hl⟩ := List.mem_flatMap.mp hl
    split at hl
    · exact absurd hl List.not_mem_nil
    · rename_i hdns
      have hread := (hgrants g hg).dns (by simpa using hoff)
      exact dnsRules_reads (m := .saddr (.addr g.clientAddr)) (hgrants g hg).client
        (hread.resolve_left hdns) hl

/-- **The ruleset can be read** where every part of the snapshot can. -/
theorem nft_reads (hpool : hub.poolCIDR.is4 = true) (haddr : hub.address.is4 = true)
    (hnodes : ∀ n ∈ nodes, ∀ s ∈ n.subnets, s.is4 = true) (hgrants : ∀ g ∈ grants, GrantReads hub g)
    (hlinks : ∀ l ∈ links, LinkReads l) : nftReads hub nodes grants links = true := by
  have hpost : (postroutingChain hub).reads = true := by
    simp [Chain.reads, postroutingChain, Rule.reads, Match.reads, Operand.is4, hpool, Stmt.reads]
  have hforward := forwardChain_reads hpool hnodes hgrants hlinks
  have hpre := preroutingChain_reads haddr hgrants
  simp only [nftReads, nftRuleset, List.all_cons, List.all_nil, Table.reads, hforward, hpre, Bool.true_and,
    Bool.and_true]
  split
  · simp only [List.all_cons, hpost, List.all_nil, Bool.and_self]
  · rfl

/-! ## The environment -/

/-- What the environment gives the ruleset: the WAN interface is named wherever a line quotes it, and the resolver's
    port is one. -/
structure EnvFits (hub : Hub) (grants : List Grant) : Prop where
  wan : hub.wanIface ≠ "" → ifnameFits hub.wanIface = true
  exit : ∀ g ∈ grants, g.isExit = true → ifnameFits hub.wanIface = true
  port : hub.resolver = true → hub.resolverPort ≤ 65535

/-- A rule that neither names an interface nor redirects. -/
theorem Rule.fits_accept {ms : List Match} (h : ∀ m ∈ ms, m.fits = true) : (⟨ms, .accept⟩ : Rule).fits = true := by
  simpa [Rule.fits, Stmt.fits] using h

theorem nftRuleLine_fits (client : Addr) (r : GrantRule) (proto : String) :
    (nftRuleLine client r proto).fits = true := by
  refine Rule.fits_accept fun m hm => ?_
  simp only [List.mem_cons, List.not_mem_nil, or_false] at hm
  rcases hm with rfl | rfl | rfl
  · rfl
  · rfl
  · unfold GrantRule.portMatch
    split <;> rfl

theorem nftRuleLines_fits {client : Addr} {r : GrantRule} {l : Rule} (hl : l ∈ nftRuleLines client r) :
    l.fits = true := by
  unfold nftRuleLines at hl
  split at hl
  · split at hl
    · obtain ⟨proto, -, rfl⟩ := List.mem_map.mp hl
      exact nftRuleLine_fits client r proto
    · rw [List.mem_singleton.mp hl]
      rfl
  · rw [List.mem_singleton.mp hl]
    exact nftRuleLine_fits client r r.proto

/-- Of a grant's rules only that of a hub exit names an interface. -/
theorem nftGrantRules_fits {mesh : List Prefix} {g : Grant} (hexit : g.isExit = true → ifnameFits hub.wanIface = true)
    {l : Rule} (hl : l ∈ nftGrantRules hub mesh g) : l.fits = true := by
  unfold nftGrantRules at hl
  split at hl
  · rename_i hg
    rw [List.mem_singleton.mp hl]
    simp [Rule.fits, Match.fits, Stmt.fits, hexit hg]
  · rcases List.mem_append.mp hl with hl | hl
    · split at hl
      · rw [List.mem_singleton.mp hl]
        split <;> rfl
      · exact absurd hl List.not_mem_nil
    · split at hl
      · obtain ⟨s, -, rfl⟩ := List.mem_map.mp hl
        rfl
      · obtain ⟨r, -, hl⟩ := List.mem_flatMap.mp hl
        exact nftRuleLines_fits hl

theorem nftLinkRules_fits {k : NodeLink} {l : Rule} (hl : l ∈ nftLinkRules k) : l.fits = true := by
  obtain ⟨dst, -, hl⟩ := List.mem_flatMap.mp hl
  rcases List.mem_append.mp hl with hl | hl
  · split at hl
    · rw [List.mem_singleton.mp hl]
      rfl
    · exact absurd hl List.not_mem_nil
  · obtain ⟨src, -, rfl⟩ := List.mem_map.mp hl
    rfl

/-- The forward chain quotes the WAN interface in the clamp and in the rules of hub exits. -/
theorem forwardChain_fits : (∀ l ∈ (forwardChain hub nodes grants links).rules, l.fits = true) ↔
    (hub.wanIface ≠ "" → ifnameFits hub.wanIface = true) ∧
      ∀ g ∈ grants, g.isExit = true → ifnameFits hub.wanIface = true := by
  have hclamp : (mssClamp hub).fits = true ↔ (hub.wanIface ≠ "" → ifnameFits hub.wanIface = true) := by
    unfold mssClamp
    split
    · rename_i hwan
      simp [Rule.fits, Match.fits, Stmt.fits, hwan]
    · rename_i hwan
      simp [Rule.fits, Match.fits, Stmt.fits, hwan]
  have hct : Rule.fits ⟨[.ctState [.established, .related]], .accept⟩ = true := rfl
  simp only [forwardChain, List.cons_append, List.forall_mem_cons, List.forall_mem_append, hclamp, hct, true_and]
  refine and_congr_right fun _ => ⟨fun h g hg hexit => ?_, fun h => ⟨fun l hl => ?_, fun l hl => ?_⟩⟩
  · have hrule := h.1 ⟨[.saddr (.addr g.clientAddr), .oifname hub.wanIface], .accept⟩
      (List.mem_flatMap.mpr ⟨g, hg, by simp [nftGrantRules, hexit]⟩)
    simpa [Rule.fits, Match.fits, Stmt.fits] using hrule
  · obtain ⟨g, hg, hl⟩ := List.mem_flatMap.mp hl
    exact nftGrantRules_fits (h g hg) hl
  · obtain ⟨k, -, hl⟩ := List.mem_flatMap.mp hl
    exact nftLinkRules_fits hl

/-- The prerouting chain redirects to the resolver's port. -/
theorem preroutingChain_fits : (∀ l ∈ (preroutingChain hub grants).rules, l.fits = true) ↔
    (hub.resolver = true → hub.resolverPort ≤ 65535) := by
  unfold preroutingChain
  cases hub.resolver with
  | true =>
    by_cases hport : 0 < hub.resolverPort
    · simp [hport, dnsRules, Rule.fits, Match.fits, Stmt.fits, le_of_lt hport]
    · simp only [hport, if_true, if_false, List.not_mem_nil, forall_const, false_imp_iff, implies_true, true_iff]
      omega
  | false =>
    simp only [Bool.false_eq_true, if_false, List.mem_flatMap, false_imp_iff, iff_true]
    rintro l ⟨g, -, hl⟩
    split at hl
    · exact absurd hl List.not_mem_nil
    · obtain ⟨proto, -, rfl⟩ := List.mem_map.mp hl
      rfl

theorem postroutingChain_fits (hwan : ifnameFits hub.wanIface = true) :
    ∀ l ∈ (postroutingChain hub).rules, l.fits = true := by
  intro l hl
  rw [List.mem_singleton.mp hl]
  simp [Rule.fits, Match.fits, Stmt.fits, hwan]

/-- **`nft` takes the ruleset**, once it can be read, exactly where the environment fits. -/
theorem nftLoads_iff (hreads : nftReads hub nodes grants links = true) :
    nftLoads hub nodes grants links = true ↔ EnvFits hub grants := by
  have hchains : (forwardChain hub nodes grants links).reads = true ∧ (preroutingChain hub grants).reads = true ∧
      ∀ c ∈ (if hub.wanIface ≠ "" then [postroutingChain hub] else []), Chain.reads c = true := by
    simpa [nftReads, nftRuleset, Table.reads, and_assoc] using hreads
  obtain ⟨hforward, hpre, hpost⟩ := hchains
  have hloads : nftLoads hub nodes grants links = true ↔
      (forwardChain hub nodes grants links).loads = true ∧ (preroutingChain hub grants).loads = true ∧
        ∀ c ∈ (if hub.wanIface ≠ "" then [postroutingChain hub] else []), Chain.loads c = true := by
    simp [nftLoads, nftRuleset, Table.loads]
  rw [hloads, Chain.loads_iff, Chain.loads_iff, forwardChain_fits, preroutingChain_fits]
  constructor
  · rintro ⟨⟨-, hwan, hexit⟩, ⟨-, hport⟩, -⟩
    exact ⟨hwan, hexit, hport⟩
  · rintro ⟨hwan, hexit, hport⟩
    refine ⟨⟨hforward, hwan, hexit⟩, ⟨hpre, hport⟩, fun c hc => Chain.loads_iff.mpr ⟨hpost c hc, ?_⟩⟩
    split at hc
    · rename_i hne
      rw [List.mem_singleton.mp hc]
      exact postroutingChain_fits (hwan hne)
    · exact absurd hc List.not_mem_nil

end Awg
end BeautyAwg
