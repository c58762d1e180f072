import BeautyAwg.Api.Correctness.HubConfig
import BeautyAwg.Awg.Correctness.NftFile
import BeautyAwg.Store.Commits
import BeautyAwg.Store.Correctness.Addresses

/-!
# `Api.Correctness.RulesetLoads`: the ruleset of every reachable state loads

The handlers take every prefix that `ParsePrefix` reads, IPv6 ones too, and a DNS server as it comes; each
of them stands in a line that `nft` then refuses, with the file around it (`ruleset_refused`). Where what
the requests carry is IPv4 (`AdminReq.Reads`, `EnrollReq.Reads`) so is what is stored (`StoredReads`), and
every ruleset loads.

## Contents
- **Requests.** `AdminReq.Reads`, `EnrollReq.Reads`, and what the calls they lead to carry.
- **Invariant.** `StoredReads`, kept by every write of such a call.
- **Results.** `ruleset_reads`, `ruleset_loads`, `ruleset_text`, `ruleset_refused`.
-/

namespace BeautyAwg
namespace Api

open Netip Nft Awg Store Txn

/-! ## Requests -/

/-- If the text is a prefix at all, it is an IPv4 one. -/
def Is4Text (s : String) : Prop := ∀ p ∈ parsePrefix s, p.is4 = true

instance (s : String) : Decidable (Is4Text s) := inferInstanceAs (Decidable (∀ p ∈ parsePrefix s, _))

/-- What the request stores and the ruleset prints is IPv4. DNS servers count only where the hub's resolver
    is off. -/
def AdminReq.Reads (hub : Hub) : AdminReq → Prop
  | createNode req => ∀ s ∈ req.subnets, Is4Text s
  | updateNode _ req => hub.resolver = false → ∀ dns ∈ req.dns, DnsReads dns
  | setGrantRules _ _ rules => ∀ r ∈ rules, Is4Text r.dest
  | _ => True

/-- Every subnet that the announcement carries is an IPv4 one, if it is a prefix at all. -/
def EnrollReq.Reads (req : EnrollReq) : Prop := ∀ s ∈ req.subnets, Is4Text s

/-- What a store call carries. -/
def OpReads (hub : Hub) : Op → Prop
  | .createNode _ _ _ subnets _ _ => ∀ s ∈ subnets, s.is4 = true
  | .enrollNode _ _ _ _ _ _ subnets _ => ∀ s ∈ subnets, s.is4 = true
  | .setNodeDNS _ dns => hub.resolver = false → DnsReads dns
  | .setGrantRules _ _ rules => ∀ r ∈ rules, Is4Text r.dest
  | _ => True

/-- IPv4 texts are parsed to IPv4 subnets. -/
theorem is4_of_parseSubnets {ss : List String} {ps : List Prefix} (hss : ∀ s ∈ ss, Is4Text s)
    (h : parseSubnets ss = .ok ps) : ∀ p ∈ ps, p.is4 = true := by
  intro p hp
  obtain ⟨s, hs, hparse⟩ := mem_parseSubnets h hp
  exact hss s hs p hparse

variable {hub : Hub} {secret : String} {op : Op}

/-- A request with IPv4 texts stores IPv4 data. -/
theorem opReads_of_call (h : Call (AdminReq.Reads hub) EnrollReq.Reads op) : OpReads hub op := by
  cases h with
  | start id => trivial
  | admin hreq hcalls hop =>
    cases sends_of_calls hcalls hop with
    | createNode hsubnets => exact is4_of_parseSubnets hreq hsubnets
    | setNodeDNS hdns => exact fun hoff => hreq hoff _ hdns
    | setGrantRules => exact hreq
    | _ => trivial
  | enroll hreq hcall =>
    obtain ⟨subnets, hparse, -, rfl⟩ := handleEnroll_subnets hcall
    exact is4_of_parseSubnets hreq hparse

/-! ## Invariant -/

/-- What the ruleset prints of the stored rows is IPv4. -/
structure StoredReads (hub : Hub) (t : Tables) : Prop where
  subnets : ∀ s ∈ t.subnets, s.subnet.is4 = true
  rules : ∀ r ∈ t.grantRules, r.dest.is4 = true
  dns : hub.resolver = false → ∀ n ∈ t.nodes, DnsReads n.dns

/-- A write that stores nothing else, or leaves it alone. -/
def WriteReads (hub : Hub) : Write → Prop
  | .insertNode r => DnsReads r.dns
  | .updateNode _ f => hub.resolver = false → ∀ r, DnsReads r.dns → DnsReads (f r).dns
  | .insertSubnet s => s.subnet.is4 = true
  | .insertRule r => r.dest.is4 = true
  | _ => True

/-- All of its writes do. -/
theorem writeReads_of_opReads {w : Write} (h : OpReads hub op) (hw : op.Writes w) : WriteReads hub w := by
  cases hw with
  | createNode a => exact .inl rfl
  | createNode_subnet hs => exact h _ hs
  | enrollNode => exact .inl rfl
  | enrollNode_known known token => exact fun _ r hr => hr
  | enrollNode_subnet known hs => exact h _ hs
  | approveNode a => exact fun _ r hr => hr
  | rejectNode => exact fun _ r hr => hr
  | ensureHubNode a => exact .inl rfl
  | ensureHubNode_subnet => exact rfl
  | renameNode => exact fun _ r hr => hr
  | setNodeDNS => exact fun hoff r _ => h hoff
  | setNodeColor => exact fun _ r hr => hr
  | setGrantRules hr hdest => exact h _ hr _ hdest
  | _ => trivial

/-- Such a write keeps the invariant. -/
theorem storedReads_apply {w : Write} {c c' : Db} (hw : WriteReads hub w) (happly : apply w c = .ok c')
    (h : StoredReads hub c.toTables) : StoredReads hub c'.toTables := by
  rw [← apply_eq_ok.mp happly]
  obtain ⟨hsubnets, hrules, hdns⟩ := h
  cases w with
  | insertNode r =>
    refine ⟨hsubnets, hrules, fun hoff n hn => ?_⟩
    rcases List.mem_append.mp hn with hold | hnew
    · exact hdns hoff n hold
    · rw [List.mem_singleton.mp hnew]
      exact hw
  | updateNode id f =>
    refine ⟨hsubnets, hrules, fun hoff n hn => ?_⟩
    obtain ⟨r, hr, rfl⟩ := List.mem_map.mp hn
    split
    · exact hw hoff r (hdns hoff r hr)
    · exact hdns hoff r hr
  | deleteNode id =>
    -- the cascades only take rows away
    exact ⟨fun s hs => hsubnets s (List.mem_filter.mp hs).1, fun r hr => hrules r (List.mem_filter.mp hr).1,
      fun hoff n hn => hdns hoff n (List.mem_filter.mp hn).1⟩
  | insertSubnet s =>
    refine ⟨fun x hx => ?_, hrules, hdns⟩
    rcases List.mem_append.mp hx with hold | hnew
    · exact hsubnets x hold
    · rw [List.mem_singleton.mp hnew]
      exact hw
  | deleteSubnet s => exact ⟨fun x hx => hsubnets x (List.mem_of_mem_erase hx), hrules, hdns⟩
  | insertRule r =>
    refine ⟨hsubnets, fun x hx => ?_, hdns⟩
    rcases List.mem_append.mp hx with hold | hnew
    · exact hrules x hold
    · rw [List.mem_singleton.mp hnew]
      exact hw
  | deleteRule r => exact ⟨hsubnets, fun x hx => hrules x (List.mem_of_mem_erase hx), hdns⟩
  | deleteClient id => exact ⟨hsubnets, fun r hr => hrules r (List.mem_filter.mp hr).1, hdns⟩
  | deleteGrant key => exact ⟨hsubnets, fun r hr => hrules r (List.mem_filter.mp hr).1, hdns⟩
  | insertDomain | deleteDomain | insertClient | updateClient | insertGrant | setExit | insertLink
  | deleteLink => exact ⟨hsubnets, hrules, hdns⟩

variable {s : Server} {out : Snapshot}

/-- In every interleaving of such requests the tables hold no other. -/
theorem storedReads_of_runs (h : Runs (AdminReq.Reads hub) EnrollReq.Reads hub secret s) :
    StoredReads hub s.committed.toTables := by
  have hboot : StoredReads hub (Db.boot hub secret).toTables :=
    ⟨fun _ h => absurd h List.not_mem_nil, fun _ h => absurd h List.not_mem_nil,
      fun _ _ h => absurd h List.not_mem_nil⟩
  exact good_of_writes (I := fun c : Db => StoredReads hub c.toTables) body_allWrites
    (fun _ _ _ _ hcall hw => storedReads_apply (writeReads_of_opReads (opReads_of_call hcall) hw)) hboot h

/-! ## Results -/

/-- An address of an IPv4 pool is IPv4. -/
theorem is4_of_host {a : Addr} (hpool : hub.poolCIDR.is4 = true) (ha : HostAddr hub a) : a.is4 = true := by
  refine is4_of_contains ?_ ha.inPool
  simp only [Prefix.is4, Bool.and_eq_true] at hpool
  exact hpool.1

/-- The address of a live node is the hub's or one of the pool. -/
theorem is4_of_live {db : Db} {n : NodeRow} (hpool : hub.poolCIDR.is4 = true) (haddr : hub.address.is4 = true)
    (hinv : AddrInv hub db) (hn : n ∈ db.toTables.liveNodes) : (n.address.getD .invalid).is4 = true := by
  obtain ⟨hmem, hlive⟩ := List.mem_filter.mp hn
  simp only [decide_eq_true_eq] at hlive
  obtain ⟨a, ha⟩ := Option.ne_none_iff_exists'.mp hlive.2
  rw [ha, Option.getD_some]
  rcases hinv.node_host n hmem a ha with hhost | ⟨-, rfl⟩
  · exact is4_of_host hpool hhost
  · exact haddr

/-- A stored access level can be read. -/
theorem ruleReads_toRule {db : Db} (hread : StoredReads hub db.toTables) {r : RuleRow} (hr : r ∈ db.grantRules) :
    RuleReads (toRule r) := by
  obtain ⟨hfrom, hto, -⟩ := db.wf.rules_port_check r hr
  refine ⟨hread.rules r hr, db.wf.rules_proto_check r hr, ?_, ?_⟩
  · show r.portFrom.getD 0 ≤ 65535
    cases hp : r.portFrom with
    | none => decide
    | some a => exact (hfrom a hp).2
  · show r.portTo.getD 0 ≤ 65535
    cases hp : r.portTo with
    | none => decide
    | some a => exact (hto a hp).2

/-- Every operand, port and target of the ruleset can be read. -/
theorem ruleset_reads (hpool : hub.poolCIDR.is4 = true) (haddr : hub.address.is4 = true)
    (hrun : Runs (AdminReq.Reads hub) EnrollReq.Reads hub secret s) (hout : SnapshotOf s.committed.toTables out) :
    nftReads out.hub out.nodes out.grants out.links = true := by
  have hread := storedReads_of_runs hrun
  have hinv : AddrInv hub s.committed := addrInv_of_steps (stepsIn_mono (fun _ _ => trivial) hrun)
  have hsubnets : ∀ {ps : List Prefix} {id : Uuid}, ps.Perm (s.committed.subnetsOf id) →
      ∀ p ∈ ps, p.is4 = true := fun hperm p hp =>
    hread.subnets _ (mem_subnetsOf.mp (hperm.mem_iff.mp hp))
  -- addresses come from the pool, subnets and rules from rows that requests have stored
  rw [hout.hub, hinv.hub_eq]
  refine nft_reads hpool haddr (fun n hn => ?_) (fun g hg => ?_) fun l hl => ?_
  · obtain ⟨r, -, hperm, -⟩ := hout.node hn
    exact hsubnets hperm
  · obtain ⟨_, -, c, hc, r, hr, -, -, -, hclient, -, hperm, hrules, -⟩ := hout.grant hg
    refine ⟨?_, hsubnets hperm, fun rule hrule => ?_, fun hoff => ?_⟩
    · rw [hclient]
      exact is4_of_host hpool (hinv.client_host c hc)
    · obtain ⟨rr, hrr, -, rfl⟩ := hrules rule hrule
      exact ruleReads_toRule hread hrr
    · obtain ⟨n, hn, hdns⟩ := hout.grant_dns hg
      rw [hdns]
      exact hread.dns hoff n (List.mem_filter.mp hn).1
  · obtain ⟨_, -, a, ha, b, -, -, -, hsrc, hsrcs, hdsts⟩ := hout.link hl
    refine ⟨?_, hsubnets hsrcs, hsubnets hdsts⟩
    rw [hsrc]
    exact is4_of_live hpool haddr hinv ha

/-- **The ruleset loads** in every state that requests lead to whose subnets and destinations are IPv4 and
    whose DNS servers (where the resolver is off) are IPv4 addresses with an optional port: every operand, port and
    target can be read, and `nft` takes the file exactly where the environment's interface and port fit. -/
theorem ruleset_loads (hpool : hub.poolCIDR.is4 = true) (haddr : hub.address.is4 = true)
    (hrun : Runs (AdminReq.Reads hub) EnrollReq.Reads hub secret s) (hout : SnapshotOf s.committed.toTables out) :
    nftReads out.hub out.nodes out.grants out.links = true ∧
      (nftLoads out.hub out.nodes out.grants out.links = true ↔ EnvFits out.hub out.grants) := by
  have hreads : nftReads out.hub out.nodes out.grants out.links = true := ruleset_reads hpool haddr hrun hout
  exact ⟨hreads, nftLoads_iff hreads⟩

/-- **The text** of such a ruleset is read back as the ruleset, where the environment fits and the WAN interface has a
    plain name. -/
theorem ruleset_text (hpool : hub.poolCIDR.is4 = true) (haddr : hub.address.is4 = true)
    (hrun : Runs (AdminReq.Reads hub) EnrollReq.Reads hub secret s) (hout : SnapshotOf s.committed.toTables out)
    (henv : EnvFits out.hub out.grants) (hwan : PlainName out.hub.wanIface) :
    readRuleset (renderNFT out.hub out.nodes out.grants out.links) =
      some (nftRuleset out.hub out.nodes out.grants out.links) :=
  renderNFT_reads_back ((nftLoads_iff (ruleset_reads hpool haddr hrun hout)).mpr henv) hwan

/-! ### One location, one device -/

/-- The calls of requests that the handlers take. -/
def callsOf (reqs : List AdminReq) : List Op := reqs.flatMap fun req => (req.calls demoFresh).toOption.getD []

theorem call_of_callsOf {admin : AdminReq → Prop} {enroll : EnrollReq → Prop} {reqs : List AdminReq}
    (hreqs : ∀ req ∈ reqs, admin req) {op : Op} (h : op ∈ callsOf reqs) : Call admin enroll op := by
  obtain ⟨req, hreq, hop⟩ := List.mem_flatMap.mp h
  cases hcalls : req.calls demoFresh with
  | error e =>
    rw [hcalls] at hop
    exact absurd hop List.not_mem_nil
  | ok ops =>
    rw [hcalls] at hop
    exact .admin (hreqs req hreq) hcalls hop

/-- A location with its LAN and its DNS server, and a device that is granted it at an access level. -/
def accessReqs (subnet : String) (rules : List RuleDTO) (dns : String) : List AdminReq :=
  [.createNode ⟨"home", "eth0", [subnet]⟩, .createClient ⟨"phone", ""⟩, .grant 1 1, .setGrantRules 1 1 rules,
    .updateNode 1 ⟨some dns, none, none, none⟩]

/-- Whether every operand, port and target of a snapshot's ruleset can be read. -/
def snapshotReads (out : Snapshot) : Bool := nftReads out.hub out.nodes out.grants out.links

/-- Whether `nft` takes the ruleset of a snapshot. -/
def snapshotLoads (out : Snapshot) : Bool := nftLoads out.hub out.nodes out.grants out.links

/-- The requests are taken, one after the other, and then the ruleset is refused for an operand or a target. -/
def Refused (reqs : List AdminReq) : Prop := ∃ db out,
  Txn.runAll apply Op.body (fun _ _ => true) (Db.boot demoHub "") (callsOf reqs) = some db ∧
    Runs (fun _ => True) (fun _ => True) demoHub "" (Sys.idle db) ∧ SnapshotOf db.toTables out ∧
    snapshotReads out = false ∧ snapshotLoads out = false

/-- A run whose ruleset is not read shows that its requests can lead to a refused one. -/
theorem refused_of_run {reqs : List AdminReq}
    (h : (Txn.runAll apply Op.body (fun _ _ => true) (Db.boot demoHub "") (callsOf reqs)).any
      (fun db => !snapshotReads (snapshot db.toTables) && !snapshotLoads (snapshot db.toTables)) = true) :
    Refused reqs := by
  obtain ⟨db, hdb, hload⟩ := (Option.any_eq_true _ _).mp h
  refine ⟨db, snapshot db.toTables, hdb, ?_, snapshot_spec _, by simpa using hload⟩
  exact stepsIn_of_runAll (fun op hop => call_of_callsOf (fun _ _ => trivial) hop) hdb

/-- **The ruleset is refused**: an IPv6 LAN, an IPv6 destination, a DNS server given by name. -/
theorem ruleset_refused : demoHub.poolCIDR.is4 = true ∧ demoHub.address.is4 = true ∧
    Refused (accessReqs "fd00:1::/64" [] "192.168.1.1") ∧
    Refused (accessReqs "192.168.1.0/24" [⟨"fd00:1::7/128", "tcp", 443, 0⟩] "") ∧
    Refused (accessReqs "192.168.1.0/24" [] "router.lan") :=
  ⟨by decide, by decide, refused_of_run (by decide +kernel), refused_of_run (by decide +kernel),
    refused_of_run (by decide +kernel)⟩

/-- The same with IPv4 throughout. -/
theorem ruleset_loads_access : ∃ s : Server, s.committed.grantRules.length = 1 ∧
    snapshotReads (snapshot s.committed.toTables) = true ∧ snapshotLoads (snapshot s.committed.toTables) = true := by
  let reqs := accessReqs "192.168.1.0/24" [⟨"192.168.1.7/32", "tcp", 443, 0⟩] "192.168.1.1:53"
  have hrun : (Txn.runAll apply Op.body (fun _ _ => true) (Db.boot demoHub "") (callsOf reqs)).any
      (fun db => db.grantRules.length == 1 && decide (db.hub = demoHub)) = true := by decide +kernel
  obtain ⟨db, hdb, hcheck⟩ := (Option.any_eq_true _ _).mp hrun
  obtain ⟨hlen, hhub⟩ := Bool.and_eq_true_iff.mp hcheck
  have hreads : ∀ req ∈ reqs, req.Reads demoHub := by
    have hlan : Is4Text "192.168.1.0/24" := by decide
    have hdest : Is4Text "192.168.1.7/32" := by decide
    have hdns : DnsReads "192.168.1.1:53" := by decide
    simp [reqs, accessReqs, AdminReq.Reads, hlan, hdest, hdns]
  have hruns : Runs (AdminReq.Reads demoHub) EnrollReq.Reads demoHub "" (Sys.idle db) :=
    stepsIn_of_runAll (fun op hop => call_of_callsOf hreads hop) hdb
  obtain ⟨hread, hiff⟩ := ruleset_loads (by decide) (by decide) hruns (snapshot_spec db.toTables)
  refine ⟨Sys.idle db, beq_iff_eq.mp hlen, hread, hiff.mpr ?_⟩
  have hwan : (snapshot db.toTables).hub = demoHub := of_decide_eq_true hhub
  rw [hwan]
  exact ⟨by decide, fun _ _ _ => by decide, by decide⟩

end Api
end BeautyAwg
