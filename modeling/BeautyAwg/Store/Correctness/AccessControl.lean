import BeautyAwg.Awg.Correctness.NftMeaning
import BeautyAwg.Awg.Peers
import BeautyAwg.Store.Correctness.Grants

/-!
# `Store.Correctness.AccessControl`: the two halves of access control

A device's configuration says what enters the tunnel, the hub's ruleset what leaves it again. Both are
rendered from a client's grants, read by different queries. They agree on the grants of home servers. A
grant of the hub's own node opens the whole internet in the ruleset whatever its rules say, while the
device's list keeps to the rules.

## Contents
- **Agreement.** `Opens`, `HalvesAgree`.
- **One grant.** What it opens is what it reaches: `permits_reaches`, `reaches_permits`.
- **The condition.** `ExitAgrees`; `halves_agree_iff`, and `hubRules_ignored`.
-/

namespace BeautyAwg
namespace Store

open Netip Nft Awg Txn

variable {db : Db} {out : Snapshot} {exp : ClientExport} {g g' : Grant} {p : Packet} {a : Addr}

/-! ## Agreement -/

/-- The ruleset accepts the packet on account of the grant. -/
def Opens (out : Snapshot) (g : Grant) (p : Packet) : Prop :=
  ∃ l ∈ nftGrantRules out.hub (nftMesh out.hub out.nodes) g, l.admits p

/-- A new packet from the client, to leave by some interface. -/
def NewFrom (exp : ClientExport) (p : Packet) : Prop :=
  p.oif ≠ "" ∧ p.ct = .new ∧ exp.client.address = .v4 p.src

/-- What a grant of the client opens enters the tunnel, and what enters the tunnel is accepted for some
    interface, protocol and port, unless everything enters it. -/
structure HalvesAgree (out : Snapshot) (exp : ClientExport) : Prop where
  carried : ∀ p, NewFrom exp p → (∃ g ∈ out.grants, Opens out g p) →
    coveredBy (clientAllowedIPs exp.hub exp.grants) (.v4 p.dst) = true
  accepted : fullTunnel ∉ clientAllowedIPs exp.hub exp.grants → ∀ a,
    coveredBy (clientAllowedIPs exp.hub exp.grants) a = true → a ≠ exp.hub.address →
    ∃ p, NewFrom exp p ∧ a = .v4 p.dst ∧
      (forwardChain out.hub out.nodes out.grants out.links).accepts p = true

/-- The addresses the client's configuration is made of are IPv4. -/
@[mk_iff]
structure Ipv4Data (exp : ClientExport) : Prop where
  hub : exp.hub.address.is4 = true
  client : exp.client.address.is4 = true
  subnets : ∀ g ∈ exp.grants, ∀ s ∈ g.subnets, s.addr.is4 = true
  rules : ∀ g ∈ exp.grants, ∀ r ∈ g.rules, r.dest.addr.is4 = true

instance (exp : ClientExport) : Decidable (Ipv4Data exp) := decidable_of_iff _ (ipv4Data_iff exp).symm

theorem Ipv4Data.client_v4 (h : Ipv4Data exp) : ∃ src, exp.client.address = .v4 src := Addr.is4_iff.mp h.client

/-- The link carries packets from the one address to the other. -/
def NodeLink.carries (l : NodeLink) (src dst : Addr) : Prop :=
  (l.srcAddr = src ∨ ∃ s ∈ l.srcSubnets, s.contains src = true) ∧ ∃ d ∈ l.dstSubnets, d.contains dst = true

/-- The client has no grant of the hub's node, or its grants reach everything the hub's exit opens. Without
    a WAN interface that exit opens nothing, and all it reaches must be open otherwise. -/
def ExitAgrees (out : Snapshot) (exp : ClientExport) : Prop :=
  if exp.hub.wanIface = "" then
    TunnelsAll exp.grants ∨ ∀ g ∈ exp.grants, g.isExit = true → ∀ a, g.reaches a → a ≠ exp.hub.address →
      (∃ g' ∈ exp.grants, g'.isExit = false ∧ g'.reaches a) ∨
        ∃ l ∈ out.links, NodeLink.carries l exp.client.address a
  else
    (∀ g ∈ exp.grants, g.isExit = false) ∨
      ∀ y : BitVec 32, .v4 y = exp.hub.address ∨ ∃ g ∈ exp.grants, g.nodeExit = true ∨ g.reaches (.v4 y)

/-! ## One grant -/

/-- What a grant of a home server permits is a destination of it, or it is an exit. -/
theorem permits_reaches {hub : Hub} {nodes : List Node} (hexit : g.isExit = false)
    (h : g.Permits hub nodes p) : g.nodeExit = true ∨ g.reaches (.v4 p.dst) := by
  rw [Grant.reaches_iff]
  rcases h with ⟨hhub, -⟩ | ⟨-, hnode, -⟩ | ⟨-, hnil, hs⟩ | ⟨-, r, hr, hperm⟩
  · exact absurd (hexit.symm.trans hhub) (by simp)
  · exact Or.inl hnode
  · rw [if_pos hnil]
    exact Or.inr hs
  · rw [if_neg (List.ne_nil_of_mem hr)]
    exact Or.inr ⟨r, hr, hperm.1⟩

/-- A stored rule permits something to each address of its destination. -/
theorem rule_permits (wf : db.Constraints) {rr : RuleRow} (hrr : rr ∈ db.grantRules) (src : BitVec 32)
    (oif : String) {dst : BitVec 32} (hdst : rr.dest.contains (.v4 dst) = true) :
    ∃ proto dport, (toRule rr).Permits ⟨src, dst, oif, proto, dport, .new, false, 0⟩ := by
  obtain ⟨hfrom, -, -⟩ := wf.rules_port_check rr hrr
  -- the protocol the rule names, or any
  have hproto : ∃ proto : L4, (proto = .tcp ∨ proto = .udp) ∧
      ((toRule rr).AnyProto ∨ (¬ (toRule rr).AnyProto ∧ L4.named rr.proto = some proto)) := by
    rcases wf.rules_proto_check rr hrr with h | h | h
    · exact ⟨.tcp, Or.inl rfl, Or.inl (Or.inr h)⟩
    · exact ⟨.tcp, Or.inl rfl, Or.inr ⟨by simp [GrantRule.AnyProto, toRule, h], by simp [h, L4.named]⟩⟩
    · exact ⟨.udp, Or.inr rfl, Or.inr ⟨by simp [GrantRule.AnyProto, toRule, h], by simp [h, L4.named]⟩⟩
  obtain ⟨proto, htransport, hnamed⟩ := hproto
  refine ⟨proto, BitVec.ofNat 16 (toRule rr).portFrom.toNat, hdst, ?_⟩
  split
  · rename_i hport
    have hbound : (toRule rr).portFrom ≤ 65535 := by
      show rr.portFrom.getD 0 ≤ 65535
      cases hp : rr.portFrom with
      | none => simp
      | some n => exact (hfrom n hp).2
    have hnat : ((BitVec.ofNat 16 (toRule rr).portFrom.toNat).toNat : Int) = (toRule rr).portFrom := by
      rw [BitVec.toNat_ofNat, Nat.mod_eq_of_lt (by omega), Int.toNat_of_nonneg (by omega)]
    refine ⟨?_, hnamed.imp (fun h => ⟨h, htransport⟩) fun h => h⟩
    rw [hnat]
    exact ⟨Int.le_refl _, Int.le_max_left _ _⟩
  · exact hnamed.imp (fun h => h) And.right

/-- A grant of a home server permits something to each of its destinations. -/
theorem reaches_permits (nodes : List Node) (hout : SnapshotOf db.toTables out) (hg : g ∈ out.grants)
    (hexit : g.isExit = false) (src : BitVec 32) (oif : String) {dst : BitVec 32} (hreach : g.reaches (.v4 dst)) :
    ∃ proto dport, g.Permits out.hub nodes ⟨src, dst, oif, proto, dport, .new, false, 0⟩ := by
  rw [Grant.reaches_iff] at hreach
  split at hreach
  · rename_i hnil
    exact ⟨.tcp, 0, Or.inr (Or.inr (Or.inl ⟨hexit, hnil, hreach⟩))⟩
  · obtain ⟨r, hr, hc⟩ := hreach
    obtain ⟨row, -, c, -, n, -, -, -, -, -, -, -, hrules, -⟩ := hout.grant hg
    obtain ⟨rr, hrr, -, rfl⟩ := hrules r hr
    obtain ⟨proto, dport, hperm⟩ := rule_permits db.wf hrr src oif hc
    exact ⟨proto, dport, Or.inr (Or.inr (Or.inr ⟨hexit, _, hr, hperm⟩))⟩

/-- Grants that say the same reach the same addresses. -/
theorem Same.reaches (h : Same g g') : g.reaches a ↔ g'.reaches a := by
  have hrules : g.rules = [] ↔ g'.rules = [] := by
    rw [← List.length_eq_zero_iff, ← List.length_eq_zero_iff, h.rules.length_eq]
  rw [Grant.reaches_iff, Grant.reaches_iff]
  simp only [hrules, h.subnets.mem_iff, h.rules.mem_iff]

/-! ## The condition -/

section Condition

variable {c : ClientRow}

/-- The facts that the two readings of one state share. -/
structure Reading (db : Db) (c : ClientRow) (out : Snapshot) (exp : ClientExport) : Prop where
  mem : c ∈ db.clients
  enabled : c.enabled = true
  snapshot : SnapshotOf db.toTables out
  exported : ExportOf db.toTables c.id (.ok exp)

namespace Reading

theorem hub_eq (h : Reading db c out exp) : out.hub = exp.hub := by
  obtain ⟨c', _, _, rows, rules, _, _, he⟩ := h.exported
  rw [h.snapshot.hub, he]

theorem client_eq (h : Reading db c out exp) : exp.client.address = c.address := by
  obtain ⟨c', hc', hid, rows, rules, -, -, rfl⟩ := h.exported
  rw [client_eq_of_id db.wf hc' h.mem hid]
  rfl

/-- A grant of the snapshot with the client's address is one of the export. -/
theorem exports (h : Reading db c out exp) (hg : g ∈ out.grants) (haddr : g.clientAddr = exp.client.address) :
    ∃ g' ∈ exp.grants, Same g g' :=
  (export_agrees h.mem h.enabled h.snapshot h.exported).item
    (List.mem_filter.mpr ⟨hg, decide_eq_true (haddr.trans h.client_eq)⟩)

/-- A grant of the export is one of the snapshot. -/
theorem shows (h : Reading db c out exp) (hg : g' ∈ exp.grants) :
    ∃ g ∈ out.grants, g.clientAddr = exp.client.address ∧ Same g g' := by
  obtain ⟨g, hmem, hsame⟩ := (export_agrees h.mem h.enabled h.snapshot h.exported).row hg
  obtain ⟨hmem, haddr⟩ := List.mem_filter.mp hmem
  exact ⟨g, hmem, (of_decide_eq_true haddr).trans h.client_eq.symm, hsame⟩

/-- What a home server's grant opens is in the list of the device. -/
theorem carried (h : Reading db c out exp) (hsrc : exp.client.address = .v4 p.src) (hg : g ∈ out.grants)
    (hopen : Opens out g p) (hexit : g.isExit = false) :
    coveredBy (clientAllowedIPs exp.hub exp.grants) (.v4 p.dst) = true := by
  obtain ⟨haddr, hperm⟩ := nftGrantRules_admits.mp hopen
  obtain ⟨g', hg', hsame⟩ := h.exports hg (haddr.trans hsrc.symm)
  rw [clientAllowedIPs_covers]
  split
  · rfl
  · rename_i hnot
    rcases permits_reaches hexit hperm with hnode | hreach
    · exact absurd ⟨g', hg', Or.inl (hsame.nodeExit ▸ hnode)⟩ hnot
    · exact Or.inr ⟨g', hg', hsame.reaches.mp hreach⟩

/-- A destination of a home server's grant is accepted, whatever the interface. -/
theorem accepted (h : Reading db c out exp) {src dst : BitVec 32} (hsrc : exp.client.address = .v4 src)
    (hg : g' ∈ exp.grants) (hexit : g'.isExit = false) (hreach : g'.reaches (.v4 dst)) (oif : String) :
    ∃ proto dport, (forwardChain out.hub out.nodes out.grants out.links).accepts
      ⟨src, dst, oif, proto, dport, .new, false, 0⟩ = true := by
  obtain ⟨g, hmem, haddr, hsame⟩ := h.shows hg
  obtain ⟨proto, dport, hperm⟩ := reaches_permits out.nodes h.snapshot hmem
    (hsame.isExit.trans hexit) src oif (hsame.reaches.mpr hreach)
  refine ⟨proto, dport, ?_⟩
  rw [forwardChain_accepts]
  exact Or.inr (Or.inl ⟨g, hmem, haddr.trans hsrc, hperm⟩)

/-- A device whose grants tunnel everything has all of IPv4 in its list. -/
theorem covers_all (hfull : TunnelsAll exp.grants) (y : BitVec 32) :
    coveredBy (clientAllowedIPs exp.hub exp.grants) (.v4 y) = true := by
  rw [clientAllowedIPs_covers, if_pos hfull]
  rfl

/-- What the list covers, apart from the hub, is a destination of some grant. -/
theorem covered_reaches (hv4 : Ipv4Data exp) (hnot : ¬ TunnelsAll exp.grants)
    (hcov : coveredBy (clientAllowedIPs exp.hub exp.grants) a = true) (hne : a ≠ exp.hub.address) :
    ∃ g ∈ exp.grants, g.reaches a ∧ a.is4 = true := by
  rw [clientAllowedIPs_covers, if_neg hnot] at hcov
  rcases hcov with hhub | ⟨g, hg, hreach⟩
  · obtain ⟨y, hh⟩ := Addr.is4_iff.mp hv4.hub
    rw [hh] at hhub hne
    exact absurd (host_v4_contains.mp hhub) hne
  · refine ⟨g, hg, hreach, ?_⟩
    rw [Grant.reaches_iff] at hreach
    split at hreach
    · obtain ⟨s, hs, hc⟩ := hreach
      exact is4_of_contains (hv4.subnets g hg s hs) hc
    · obtain ⟨r, hr, hc⟩ := hreach
      exact is4_of_contains (hv4.rules g hg r hr) hc

/-- When the exits agree, so do the two halves. -/
theorem agree_of_exit (h : Reading db c out exp) (hv4 : Ipv4Data exp) (hexit : ExitAgrees out exp) :
    HalvesAgree out exp := by
  refine ⟨fun p hnew hopen => ?_, fun hnot a hcov hne => ?_⟩
  · obtain ⟨hoif, -, hsrc⟩ := hnew
    obtain ⟨g, hg, hopen⟩ := hopen
    cases hisExit : g.isExit with
    | false => exact h.carried hsrc hg hopen hisExit
    | true =>
      -- the hub's exit opens everything, to leave by the WAN interface
      obtain ⟨haddr, hperm⟩ := nftGrantRules_admits.mp hopen
      have hwan : p.oif = exp.hub.wanIface := by
        rw [← h.hub_eq]
        simpa [Grant.Permits, hisExit] using hperm
      obtain ⟨g', hg', hsame⟩ := h.exports hg (haddr.trans hsrc.symm)
      rw [ExitAgrees, if_neg fun he => hoif (hwan.trans he)] at hexit
      by_cases hfull : TunnelsAll exp.grants
      · exact covers_all hfull p.dst
      · rw [clientAllowedIPs_covers, if_neg hfull]
        rcases hexit with hnone | hall
        · exact absurd ((hsame.isExit.symm.trans hisExit).symm.trans (hnone g' hg')) (by simp)
        · rcases hall p.dst with hhub | ⟨k, hk, hnode | hreach⟩
          · rw [← hhub]
            exact Or.inl (host_v4_contains.mpr rfl)
          · exact absurd ⟨k, hk, Or.inl hnode⟩ hfull
          · exact Or.inr ⟨k, hk, hreach⟩
  · rw [fullTunnel_mem_iff] at hnot
    obtain ⟨g', hg', hreach, ha4⟩ := covered_reaches hv4 hnot hcov hne
    obtain ⟨src, hsrc⟩ := hv4.client_v4
    obtain ⟨dst, rfl⟩ := Addr.is4_iff.mp ha4
    cases hisExit : g'.isExit with
    | false =>
      obtain ⟨proto, dport, hacc⟩ := h.accepted hsrc hg' hisExit hreach "awg0"
      exact ⟨_, ⟨by simp, rfl, hsrc⟩, rfl, hacc⟩
    | true =>
      unfold ExitAgrees at hexit
      split at hexit
      · rcases hexit.resolve_left hnot g' hg' hisExit _ hreach hne with ⟨k, hk, hkexit, hkreach⟩ | ⟨l, hl, hcarry⟩
        · obtain ⟨proto, dport, hacc⟩ := h.accepted hsrc hk hkexit hkreach "awg0"
          exact ⟨_, ⟨by simp, rfl, hsrc⟩, rfl, hacc⟩
        · refine ⟨⟨src, dst, "awg0", .tcp, 0, .new, false, 0⟩, ⟨by simp, rfl, hsrc⟩, rfl, ?_⟩
          rw [forwardChain_accepts]
          rw [hsrc] at hcarry
          exact Or.inr (Or.inr ⟨l, hl, hcarry⟩)
      · rename_i hwan
        obtain ⟨g, hg, haddr, hsame⟩ := h.shows hg'
        refine ⟨⟨src, dst, exp.hub.wanIface, .tcp, 0, .new, false, 0⟩, ⟨hwan, rfl, hsrc⟩, rfl, ?_⟩
        rw [forwardChain_accepts]
        exact Or.inr (Or.inl ⟨g, hg, haddr.trans hsrc,
          Or.inl ⟨hsame.isExit.trans hisExit, by rw [h.hub_eq]⟩⟩)

/-- When the two halves agree, so do the exits. -/
theorem exit_of_agree (h : Reading db c out exp) (hv4 : Ipv4Data exp) (hagree : HalvesAgree out exp) :
    ExitAgrees out exp := by
  obtain ⟨src, hsrc⟩ := hv4.client_v4
  unfold ExitAgrees
  split
  · rename_i hwan
    by_cases hfull : TunnelsAll exp.grants
    · exact Or.inl hfull
    · refine Or.inr fun g' hg' _ a hreach hne => ?_
      have hcov : coveredBy (clientAllowedIPs exp.hub exp.grants) a = true := by
        rw [clientAllowedIPs_covers, if_neg hfull]
        exact Or.inr ⟨g', hg', hreach⟩
      obtain ⟨p, ⟨hoif, hct, hpsrc⟩, rfl, hacc⟩ :=
        hagree.accepted (fun hmem => hfull (fullTunnel_mem_iff.mp hmem)) a hcov hne
      rcases forwardChain_accepts.mp hacc with hest | ⟨k, hk, haddr, hperm⟩ | ⟨l, hl, hperm⟩
      · rw [hct] at hest
        exact absurd hest (by simp)
      · obtain ⟨k', hk', hsame⟩ := h.exports hk (haddr.trans hpsrc.symm)
        cases hkexit : k.isExit with
        | true =>
          -- nothing leaves by an interface without a name
          have hout : p.oif = out.hub.wanIface := by simpa [Grant.Permits, hkexit] using hperm
          exact absurd (hout.trans ((congrArg Hub.wanIface h.hub_eq).trans hwan)) hoif
        | false =>
          rcases permits_reaches hkexit hperm with hnode | hkreach
          · exact absurd ⟨k', hk', Or.inl (hsame.nodeExit ▸ hnode)⟩ hfull
          · exact Or.inl ⟨k', hk', hsame.isExit ▸ hkexit, hsame.reaches.mp hkreach⟩
      · exact Or.inr ⟨l, hl, by rw [hpsrc]; exact hperm⟩
  · rename_i hwan
    by_cases hnone : ∀ g ∈ exp.grants, g.isExit = false
    · exact Or.inl hnone
    · right
      intro y
      obtain ⟨g', hg', hisExit⟩ : ∃ g' ∈ exp.grants, g'.isExit = true := by
        by_contra hno
        refine hnone fun g hg => ?_
        by_contra hne
        exact hno ⟨g, hg, by simpa using hne⟩
      obtain ⟨g, hg, haddr, hsame⟩ := h.shows hg'
      -- the hub's exit opens this address too
      have hcov := hagree.carried ⟨src, y, exp.hub.wanIface, .tcp, 0, .new, false, 0⟩ ⟨hwan, rfl, hsrc⟩
        ⟨g, hg, nftGrantRules_admits.mpr ⟨haddr.trans hsrc, Or.inl ⟨hsame.isExit.trans hisExit, by rw [h.hub_eq]⟩⟩⟩
      rw [clientAllowedIPs_covers] at hcov
      split at hcov
      · rename_i hfull
        obtain ⟨k, hk, hnode | hzero⟩ := hfull
        · exact Or.inr ⟨k, hk, Or.inl hnode⟩
        · refine Or.inr ⟨k, hk, Or.inr ⟨_, hzero, ?_⟩⟩
          simp [Prefix.contains, BitVec.ushiftRight_eq_zero]
      · rcases hcov with hhub | ⟨k, hk, hreach⟩
        · exact Or.inl (host_contains.mp hhub).symm
        · exact Or.inr ⟨k, hk, Or.inr hreach⟩

end Reading

/-- **The two halves of access control.** For an enabled client with IPv4 data, what its grants open in the
    ruleset is in its own list and the other way round, exactly when it has no grant of the hub's node or
    its grants reach all that the hub's exit opens. -/
theorem halves_agree_iff (db : Db) (c : ClientRow) (out : Snapshot) (exp : ClientExport) (hc : c ∈ db.clients)
    (henabled : c.enabled = true) (hout : SnapshotOf db.toTables out)
    (hexp : ExportOf db.toTables c.id (.ok exp)) (hv4 : Ipv4Data exp) :
    HalvesAgree out exp ↔ ExitAgrees out exp :=
  ⟨Reading.exit_of_agree ⟨hc, henabled, hout, hexp⟩ hv4, Reading.agree_of_exit ⟨hc, henabled, hout, hexp⟩ hv4⟩

end Condition

/-! ### The hub's exit with a rule -/

/-- A device with a grant of the hub's node and of a home server, then limited to one address of the first
    of them. -/
def hubRuleRun (grants : List Op) : List Op :=
  [.ensureHubNode 1, .createNode 2 "home" "eth0" [⟨.ofBytes 192 168 1 0, 24⟩] ⟨"priv2", "pub2"⟩ "",
    .createClient 3 "phone" "" ⟨"priv3", "pub3"⟩ ""] ++ grants

/-- **The defect.** A device may use the hub's exit for one address only, and the ruleset opens all of the
    internet, which the device's list does not cover. -/
theorem hubRules_ignored : ∃ db c exp,
    runAll apply Op.body (fun _ _ => true) (Db.boot demoHub "")
      (hubRuleRun [.setGrant 3 1, .setGrantRules 3 1 [⟨"8.8.8.8/32", "any", 0, 0⟩]]) = some db ∧
    c ∈ db.clients ∧ c.enabled = true ∧ ExportOf db.toTables c.id (.ok exp) ∧ Ipv4Data exp ∧
    ¬ HalvesAgree (snapshot db.toTables) exp := by
  have hrun : ((runAll apply Op.body (fun _ _ => true) (Db.boot demoHub "")
      (hubRuleRun [.setGrant 3 1, .setGrantRules 3 1 [⟨"8.8.8.8/32", "any", 0, 0⟩]])).any fun db =>
        db.clients.any fun c => c.enabled && match clientExport db.toTables c.id with
          | .ok exp => Ipv4Data exp && (exp.hub.wanIface ≠ "" && exp.hub.address ≠ .ofBytes 1 1 1 1) &&
              exp.grants.any Grant.isExit && exp.grants.all fun g => !g.nodeExit && (g.rules ≠ [] &&
                g.rules.all fun r => !r.dest.contains (.ofBytes 1 1 1 1))
          | .error _ => false) = true := by decide +kernel
  obtain ⟨db, hdb, hcheck⟩ := (Option.any_eq_true _ _).mp hrun
  obtain ⟨c, hc, hcheck⟩ := List.any_eq_true.mp hcheck
  obtain ⟨henabled, hcheck⟩ := (Bool.and_eq_true _ _).mp hcheck
  split at hcheck
  · rename_i exp hexp
    simp only [Bool.and_eq_true, decide_eq_true_eq, List.any_eq_true, List.all_eq_true, Bool.not_eq_true'] at hcheck
    obtain ⟨⟨⟨hv4, hwan, hhub⟩, g, hg, hexit⟩, hall⟩ := hcheck
    have hspec := clientExport_spec db.toTables c.id
    rw [hexp] at hspec
    refine ⟨db, c, exp, hdb, hc, henabled, hspec, hv4, fun hagree => ?_⟩
    have hcond := Reading.exit_of_agree ⟨hc, henabled, snapshot_spec db.toTables, hspec⟩ hv4 hagree
    rw [ExitAgrees, if_neg hwan] at hcond
    rcases hcond with hnone | hevery
    · exact absurd (hexit.symm.trans (hnone g hg)) (by simp)
    · -- 1.1.1.1 leaves by the hub, and no rule of the device allows it
      rcases hevery (BitVec.ofNat 32 (((1 * 256 + 1) * 256 + 1) * 256 + 1)) with he | ⟨k, hk, hnode | hreach⟩
      · exact hhub he.symm
      · exact absurd ((hall k hk).1.symm.trans hnode) (by simp)
      · obtain ⟨-, hrules, hno⟩ := hall k hk
        rw [Grant.reaches_iff, if_neg hrules] at hreach
        obtain ⟨r, hr, hcontains⟩ := hreach
        exact absurd ((hno r hr).symm.trans hcontains) (by simp)
  · exact absurd hcheck (by simp)

/-- A device with a grant of a home server only. -/
theorem halves_agree_home : ∃ db c exp,
    runAll apply Op.body (fun _ _ => true) (Db.boot demoHub "") (hubRuleRun [.setGrant 3 2]) = some db ∧
    c ∈ db.clients ∧ ExportOf db.toTables c.id (.ok exp) ∧ HalvesAgree (snapshot db.toTables) exp := by
  have hrun : ((runAll apply Op.body (fun _ _ => true) (Db.boot demoHub "") (hubRuleRun [.setGrant 3 2])).any
      fun db => db.clients.any fun c => c.enabled && match clientExport db.toTables c.id with
        | .ok exp => Ipv4Data exp && exp.hub.wanIface ≠ "" && exp.grants.all fun g => !g.isExit
        | .error _ => false) = true := by decide +kernel
  obtain ⟨db, hdb, hcheck⟩ := (Option.any_eq_true _ _).mp hrun
  obtain ⟨c, hc, hcheck⟩ := List.any_eq_true.mp hcheck
  obtain ⟨henabled, hcheck⟩ := (Bool.and_eq_true _ _).mp hcheck
  split at hcheck
  · rename_i exp hexp
    simp only [Bool.and_eq_true, decide_eq_true_eq, List.all_eq_true, Bool.not_eq_true'] at hcheck
    obtain ⟨⟨hv4, hwan⟩, hnone⟩ := hcheck
    have hspec := clientExport_spec db.toTables c.id
    rw [hexp] at hspec
    refine ⟨db, c, exp, hdb, hc, hspec, ?_⟩
    refine (halves_agree_iff db c _ exp hc henabled (snapshot_spec db.toTables) hspec hv4).mpr ?_
    rw [ExitAgrees, if_neg hwan]
    exact Or.inl hnone
  · exact absurd hcheck (by simp)

end Store
end BeautyAwg
