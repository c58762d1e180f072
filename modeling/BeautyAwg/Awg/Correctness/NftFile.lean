import BeautyAwg.Awg.Correctness.NftLoads
import BeautyAwg.Lib.NftText

/-!
# `Awg.Correctness.NftFile`: the printed ruleset reads back

`renderNFT` prints `nftRuleset`. Where `nft` takes the ruleset and the WAN interface has a plain name, the text is read
back as the ruleset it was printed from (`renderNFT_reads_back`), so what is proved of `forwardChain` holds of the chain
in the file (`renderNFT_forwardChain`).

## Contents
- **Plain rules.** One lemma for each rule generator; `nftRuleset_plain`.
- **The file.** `renderNFT_reads_back`, `fileChain`, `renderNFT_forwardChain`.
-/

namespace BeautyAwg
namespace Awg

open Netip Nft

variable {hub : Hub} {nodes : List Node} {grants : List Grant} {links : List NodeLink}

/-! ## Plain rules -/

/-- A rule that accepts, without a name or a state to match. -/
theorem plain_acceptFlow {src dst : Operand} {rest : List Match} (hrest : ∀ m ∈ rest, m.Plain) :
    (acceptFlow src dst rest).Plain :=
  ⟨List.forall_mem_cons.mpr ⟨trivial, List.forall_mem_cons.mpr ⟨trivial, hrest⟩⟩, trivial⟩

theorem plain_nftRuleLine (client : Addr) (r : GrantRule) (proto : String) : (nftRuleLine client r proto).Plain := by
  refine plain_acceptFlow fun m hm => ?_
  rw [List.mem_singleton.mp hm]
  split <;> trivial

theorem plain_nftRuleLines {client : Addr} {r : GrantRule} {l : Rule} (hl : l ∈ nftRuleLines client r) : l.Plain := by
  unfold nftRuleLines at hl
  split at hl
  · split at hl
    · obtain ⟨proto, -, rfl⟩ := List.mem_map.mp hl
      exact plain_nftRuleLine client r proto
    · rw [List.mem_singleton.mp hl]
      exact plain_acceptFlow fun m hm => absurd hm List.not_mem_nil
  · rw [List.mem_singleton.mp hl]
    exact plain_nftRuleLine client r r.proto

theorem plain_nftGrantRules {mesh : List Prefix} {g : Grant} (hwan : PlainName hub.wanIface) {l : Rule}
    (hl : l ∈ nftGrantRules hub mesh g) : l.Plain := by
  unfold nftGrantRules at hl
  split at hl
  · rw [List.mem_singleton.mp hl]
    exact ⟨by simp [Match.Plain, hwan], trivial⟩
  · rcases List.mem_append.mp hl with hl | hl
    · split at hl
      · rw [List.mem_singleton.mp hl]
        refine ⟨?_, trivial⟩
        split <;> simp [Match.Plain]
      · exact absurd hl List.not_mem_nil
    · split at hl
      · obtain ⟨s, -, rfl⟩ := List.mem_map.mp hl
        exact plain_acceptFlow fun m hm => absurd hm List.not_mem_nil
      · obtain ⟨r, -, hl⟩ := List.mem_flatMap.mp hl
        exact plain_nftRuleLines hl

theorem plain_nftLinkRules {k : NodeLink} {l : Rule} (hl : l ∈ nftLinkRules k) : l.Plain := by
  obtain ⟨dst, -, hl⟩ := List.mem_flatMap.mp hl
  rcases List.mem_append.mp hl with hl | hl
  · split at hl
    · rw [List.mem_singleton.mp hl]
      exact plain_acceptFlow fun m hm => absurd hm List.not_mem_nil
    · exact absurd hl List.not_mem_nil
  · obtain ⟨src, -, rfl⟩ := List.mem_map.mp hl
    exact plain_acceptFlow fun m hm => absurd hm List.not_mem_nil

theorem plain_dnsRules {m : Match} {st : Stmt} (hm : m.Plain) (hst : st.Plain) {l : Rule} (hl : l ∈ dnsRules m st) :
    l.Plain := by
  obtain ⟨proto, -, rfl⟩ := List.mem_map.mp hl
  have hport : (Match.dport proto 53 none).Plain := trivial
  exact ⟨List.forall_mem_cons.mpr ⟨hm, List.forall_mem_singleton.mpr hport⟩, hst⟩

/-- A chain is plain where its head is and its rules are. -/
theorem plain_chain {name hook : String} {policy : Policy} {rules : List Rule}
    (hhead : (⟨name, hook, policy, []⟩ : Chain).Plain) (hrules : ∀ l ∈ rules, l.Plain) :
    (⟨name, hook, policy, rules⟩ : Chain).Plain :=
  ⟨hhead.name, hhead.line, hhead.head, hrules⟩

theorem no_rules : ∀ l ∈ ([] : List Rule), l.Plain := fun _ hl => absurd hl List.not_mem_nil

theorem plain_forwardChain (hwan : PlainName hub.wanIface) : (forwardChain hub nodes grants links).Plain := by
  unfold forwardChain
  refine plain_chain ⟨by decide, by decide, by decide, no_rules⟩ ?_
  simp only [List.cons_append, List.forall_mem_cons, List.forall_mem_append]
  refine ⟨⟨?_, show (1280 : Nat) ≤ 65535 by decide⟩, ⟨by simp [Match.Plain], trivial⟩, fun l hl => ?_, fun l hl => ?_⟩
  · unfold mssClamp
    split <;> simp [Match.Plain, hwan]
  · obtain ⟨g, -, hl⟩ := List.mem_flatMap.mp hl
    exact plain_nftGrantRules hwan hl
  · obtain ⟨k, -, hl⟩ := List.mem_flatMap.mp hl
    exact plain_nftLinkRules hl

theorem plain_preroutingChain : (preroutingChain hub grants).Plain := by
  unfold preroutingChain
  refine plain_chain ⟨by decide, by decide, by decide, no_rules⟩ fun l hl => ?_
  have haddr : (Match.daddr (.addr hub.address)).Plain := trivial
  have hclient : ∀ g : Grant, (Match.saddr (.addr g.clientAddr)).Plain := fun _ => trivial
  have hredirect : (Stmt.redirect hub.resolverPort).Plain := trivial
  have hdnat : ∀ g : Grant, (Stmt.dnat g.nodeDNS).Plain := fun _ => trivial
  split at hl
  · split at hl
    · exact plain_dnsRules haddr hredirect hl
    · exact absurd hl List.not_mem_nil
  · obtain ⟨g, -, hl⟩ := List.mem_flatMap.mp hl
    split at hl
    · exact absurd hl List.not_mem_nil
    · exact plain_dnsRules (hclient g) (hdnat g) hl

theorem plain_postroutingChain (hwan : PlainName hub.wanIface) : (postroutingChain hub).Plain := by
  unfold postroutingChain
  refine plain_chain ⟨by decide, by decide, by decide, no_rules⟩ fun l hl => ?_
  rw [List.mem_singleton.mp hl]
  exact ⟨by simp [Match.Plain, hwan], trivial⟩

theorem nftRuleset_plain (hwan : PlainName hub.wanIface) : ∀ t ∈ nftRuleset hub nodes grants links, t.Plain := by
  have hnat : ∀ c ∈ preroutingChain hub grants :: (if hub.wanIface ≠ "" then [postroutingChain hub] else []),
      c.Plain := by
    refine List.forall_mem_cons.mpr ⟨plain_preroutingChain, fun c hc => ?_⟩
    split at hc
    · rw [List.mem_singleton.mp hc]
      exact plain_postroutingChain hwan
    · exact absurd hc List.not_mem_nil
  simp only [nftRuleset, List.forall_mem_cons]
  have hacl : ∀ c ∈ [forwardChain hub nodes grants links], c.Plain :=
    List.forall_mem_singleton.mpr (plain_forwardChain hwan)
  exact ⟨⟨show IsWord "inet" by decide, show IsWord "awgacl" by decide, hacl⟩,
    ⟨show IsWord "ip" by decide, show IsWord "awgnat" by decide, hnat⟩, fun t ht => absurd ht List.not_mem_nil⟩

/-! ## The file -/

/-- **The ruleset reads back** from the text that `nft -f` loads. -/
theorem renderNFT_reads_back (hloads : nftLoads hub nodes grants links = true) (hwan : PlainName hub.wanIface) :
    readRuleset (renderNFT hub nodes grants links) = some (nftRuleset hub nodes grants links) :=
  readRuleset_text (List.all_eq_true.mp hloads) (nftRuleset_plain hwan)

/-- The chain of that name in a file's table of that name. -/
def fileChain (text table name : String) : Option Chain :=
  (readRuleset text).bind fun ts => (ts.find? fun t => t.name = table).bind fun t =>
    t.chains.find? fun c => c.name = name

/-- **The forward chain in the file** is `forwardChain`. -/
theorem renderNFT_forwardChain (hloads : nftLoads hub nodes grants links = true) (hwan : PlainName hub.wanIface) :
    fileChain (renderNFT hub nodes grants links) "awgacl" "forward" = some (forwardChain hub nodes grants links) := by
  unfold fileChain
  rw [renderNFT_reads_back hloads hwan]
  rfl

end Awg
end BeautyAwg
