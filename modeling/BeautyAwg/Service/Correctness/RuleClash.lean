import BeautyAwg.Lib.Rows
import BeautyAwg.Service.Correctness.Mutations
import BeautyAwg.Service.Correctness.Recovery
import BeautyAwg.Store.Correctness.Addresses
import BeautyAwg.Store.Correctness.NodeExit
import BeautyAwg.Store.Correctness.SharedSubnets

/-!
# `Service.Correctness.RuleClash`: a reconcile that stops at its own rules

`ip rule add` refuses a rule that is there, and `EnsureExitRoutes` adds one for each entry of the mesh and each
exit route. It ends with an error where two of them are the same, after the old rules were flushed. No two are
while no subnet is shared (`reconcile_adds_no_rule_twice`).

## Contents
- **The two calls.** `routeCalls`, `Serviceable`; `routeCalls_finish_iff`.
- **The mesh.** `mesh_nodup_iff`.
- **The exit routes.** `exitRules_nodup`.
- **Runs.** `reconcile_adds_no_rule_twice`, and `reconcile_adds_rule_twice`.
-/

namespace BeautyAwg
namespace Service

open Netip Awg Store PolicyRouting Tasks Txn

variable {net : Kernel Nat Dev} {l l' : Live} {hub : Hub} {out : Snapshot}

/-! ## The two calls -/

/-- The calls of `EnsureRoutes` and `EnsureExitRoutes` in the reconcile of a snapshot. -/
def routeCalls (out : Snapshot) : List Task :=
  Applier.ensureRoutes (Plan.of out).routes ++
    Applier.ensureExitRoutes (Plan.of out).hubAddr (Plan.of out).mesh (Plan.of out).exits

/-- A host on which none of the two calls' commands fails but a rule that is added again: the interface is up,
    and so is every exit device, each the tunnel to the node that it is named after. -/
structure Serviceable (hub : Hub) (net : Kernel Nat Dev) : Prop where
  sorted : net.Sorted
  awg : net.isUp .awg = true
  joined : Joined hub net
  up : ∀ i, ¬ net.Down (.exit i)

/-- What `awg-quick up` makes of a host with no exit device. -/
theorem Bare.serviceable {s : Snapshot} (h : Bare hub.address net) : Serviceable hub (awgUp s net) where
  sorted := h.sorted
  awg := by
    apply isUp_eq_true.mpr
    refine ⟨⟨.awg, none, true, [s.hub.address]⟩, mem_linksAt.mpr ⟨?_, rfl⟩, rfl⟩
    exact List.mem_append_right _ (List.mem_singleton_self _)
  joined := by
    have hjoined := h.joined
    refine ⟨?_, fun link hlink far htunnel => ?_, fun link hlink hexit => ?_⟩
    · simpa [awgUp, Dev.isExit] using hjoined.once
    · rcases List.mem_append.mp hlink with hlink | hlink
      · exact hjoined.ours link hlink far htunnel
      · rw [List.mem_singleton.mp hlink] at htunnel
        exact absurd htunnel (by simp)
    · rcases List.mem_append.mp hlink with hlink | hlink
      · exact hjoined.tunnels link hlink hexit
      · rw [List.mem_singleton.mp hlink] at hexit
        exact absurd hexit (by simp [Dev.isExit])
  up i hdown := by
    obtain ⟨link, hlink⟩ := List.exists_mem_of_ne_nil _ (down_iff.mp hdown).1
    obtain ⟨hlink, hdev⟩ := mem_linksAt.mp hlink
    rcases List.mem_append.mp hlink with hlink | hlink
    · have hexit := (h.links link hlink).1
      rw [hdev] at hexit
      exact absurd hexit (by simp [Dev.isExit])
    · rw [List.mem_singleton.mp hlink] at hdev
      exact absurd hdev (by simp)

/-- The routes to the mesh can always be put in while the tunnel is up. -/
theorem exists_ensureRoutes (subnets : List Prefix) (hup : l.net.isUp .awg = true) :
    ∃ m, Finishes Task.perform (Applier.ensureRoutes subnets) l m ∧ m.net.rules = l.net.rules ∧
      m.net.links = l.net.links := by
  unfold Applier.ensureRoutes
  induction subnets.filter fun p => p.bits ≠ 0 generalizing l with
  | nil => exact ⟨l, .nil, rfl, rfl⟩
  | cons p subnets ih =>
    have hroute : (Cmd.replaceRoute ⟨mainTable, p, .awg⟩ : Cmd Nat Dev).allowed l.net = true := hup
    obtain ⟨m, hrest, hrules, hlinks⟩ := ih (l := { l with net := l.net.setRoute ⟨mainTable, p, .awg⟩ }) hup
    exact ⟨m, (finishes_cmd hroute).append hrest, hrules, hlinks⟩

/-- Adding rules one by one finds each of them missing. -/
theorem nodup_of_finishes {new : List (PolicyRouting.Rule Nat)}
    (h : Finishes Task.perform (new.map fun r => .ip false (.addRule r)) l l') :
    new.Nodup ∧ ∀ r ∈ new, r ∉ l.net.rules := by
  induction new generalizing l with
  | nil => exact ⟨List.nodup_nil, fun r hr => absurd hr List.not_mem_nil⟩
  | cons r new ih =>
    obtain ⟨net, hnet, hrest⟩ := finishes_ip h
    obtain ⟨hnew, hfree⟩ := ih hrest
    obtain ⟨hallowed, rfl⟩ := exec_eq_some.mp hnet
    have hmissing : r ∉ l.net.rules := of_decide_eq_true hallowed
    refine ⟨List.nodup_cons.mpr ⟨fun hr => ?_, hnew⟩, fun r' hr' => ?_⟩
    · exact hfree r hr ((List.mem_orderedInsert _).mpr (.inl rfl))
    · rcases List.mem_cons.mp hr' with rfl | hr'
      · exact hmissing
      · exact fun hmem => hfree r' hr' ((List.mem_orderedInsert _).mpr (.inr hmem))

/-- The two calls run to their end, and the host stays as it has to be. -/
theorem exists_routeCalls {devs : List ExitDevice} {rules : List ExitRule} (hl : Serviceable out.hub l.net)
    (hnodes : ∀ r ∈ exitRoutes out.grants, out.hub.poolCIDR.contains r.node = true)
    (hplan : exitPlan (exitRoutes out.grants) = some (devs, rules)) (hmesh : (mesh out.hub out.nodes).Nodup)
    (hrules : rules.Nodup) : ∃ l', Finishes Task.perform (routeCalls out) l l' ∧ Serviceable out.hub l'.net := by
  obtain ⟨m, hfirst, hsameRules, hsameLinks⟩ := exists_ensureRoutes (Plan.of out).routes hl.awg
  -- the first call leaves rules and links, so the second one starts as the first did
  have hat : ∀ dev, m.net.linksAt dev = l.net.linksAt dev := by
    intro dev
    unfold Kernel.linksAt
    rw [hsameLinks]
  have hjoined : Joined out.hub m.net := by
    apply finishes_joined hfirst _ hl.joined
    intro t ht
    obtain ⟨p, -, rfl⟩ := List.mem_map.mp ht
    simp [Task.Ends, Task.cmd]
  have hup : ∀ i, ¬ m.net.Down (.exit i) := by
    intro i
    rw [down_iff, hat, ← down_iff]
    exact hl.up i
  have hnames : ∀ d ∈ devs, ∃ i, d.name = .exit i := by
    intro d hd
    obtain ⟨r, -, hr⟩ := ((mem_exitPlan hplan).1 d).mp hd
    obtain ⟨i, -, rfl⟩ := exitDevice_eq hr
    exact ⟨i, rfl⟩
  obtain ⟨l', hsecond, hready, hlinks⟩ := exists_ensureExitRoutes (finishes_sorted hfirst hl.sorted) hjoined hnodes
    hplan (fun d hd => by
      obtain ⟨i, hi⟩ := hnames d hd
      rw [hi]
      exact hup i) (newRules_nodup hmesh hrules)
  refine ⟨l', hfirst.append hsecond, ?_, ?_, ?_, fun i hdown => ?_⟩
  · exact finishes_sorted hsecond (finishes_sorted hfirst hl.sorted)
  · apply isUp_eq_true.mpr
    rw [hlinks .awg fun d hd he => by
      obtain ⟨i, hi⟩ := hnames d hd
      exact absurd (he.trans hi) (by simp), if_neg (by simp [Dev.isExit]), hat]
    exact isUp_eq_true.mp hl.awg
  · exact finishes_joined hsecond (ensureExitRoutes_ends hnodes) hjoined
  · -- a wanted exit device is ready, an unwanted one is gone
    by_cases hwanted : ∃ d ∈ devs, .exit i = d.name
    · obtain ⟨d, hd, hi⟩ := hwanted
      rw [hi] at hdown
      exact (hready d hd).not_down hdown
    · have hnone := hlinks (.exit i) fun d hd he => hwanted ⟨d, hd, he⟩
      rw [if_pos (show (Dev.exit i).isExit = true from rfl)] at hnone
      exact (down_iff.mp hdown).1 hnone

/-- Where they do, no rule came twice. -/
theorem nodup_of_routeCalls {devs : List ExitDevice} {rules : List ExitRule}
    (hplan : exitPlan (exitRoutes out.grants) = some (devs, rules))
    (h : Finishes Task.perform (routeCalls out) l l') : (mesh out.hub out.nodes).Nodup ∧ rules.Nodup := by
  obtain ⟨m, -, h⟩ := finishes_append.mp h
  have hprogram : Applier.ensureExitRoutes (Plan.of out).hubAddr (Plan.of out).mesh (Plan.of out).exits =
      [.flushRules exitMeshPref, .flushRules exitPref] ++
        afterFlush out.hub.address (mesh out.hub out.nodes) devs rules :=
    ensureExitRoutes_eq hplan
  rw [hprogram] at h
  obtain ⟨m₁, -, h⟩ := finishes_append.mp h
  obtain ⟨m₂, h, hsource⟩ := finishes_append.mp h
  obtain ⟨m₃, -, hmesh⟩ := finishes_append.mp h
  exact ⟨(nodup_of_finishes hmesh).1.of_map _, (nodup_of_finishes hsource).1.of_map _⟩

/-- **No rule comes twice**: that is when the two calls run to their end. -/
theorem routeCalls_finish_iff {devs : List ExitDevice} {rules : List ExitRule} (hl : Serviceable out.hub l.net)
    (hnodes : ∀ r ∈ exitRoutes out.grants, out.hub.poolCIDR.contains r.node = true)
    (hplan : exitPlan (exitRoutes out.grants) = some (devs, rules)) :
    (∃ l', Finishes Task.perform (routeCalls out) l l') ↔ (mesh out.hub out.nodes).Nodup ∧ rules.Nodup := by
  constructor
  · rintro ⟨l', h⟩
    exact nodup_of_routeCalls hplan h
  · rintro ⟨hmesh, hrules⟩
    obtain ⟨l', h, -⟩ := exists_routeCalls hl hnodes hplan hmesh hrules
    exact ⟨l', h⟩

/-! ## The mesh -/

variable {t : Tables}

/-- A node has each subnet once. -/
theorem subnetsOf_nodup (wf : t.Constraints) (id : Uuid) : (t.subnetsOf id).Nodup := by
  refine List.Nodup.map_on (fun a ha b hb he => ?_) (wf.subnets_pkey.filter _)
  obtain ⟨-, ha⟩ := List.mem_filter.mp ha
  obtain ⟨-, hb⟩ := List.mem_filter.mp hb
  obtain ⟨n, p⟩ := a
  obtain ⟨n', p'⟩ := b
  obtain rfl : p = p' := he
  rw [show n = n' from (of_decide_eq_true ha).trans (of_decide_eq_true hb).symm]

/-- **The mesh** has no prefix twice where no subnet is shared. -/
theorem mesh_nodup (wf : t.Constraints) (hout : SnapshotOf t out) (h : Unshared t) :
    (mesh out.hub out.nodes).Nodup := by
  obtain ⟨nodes, clients, rules, grants, links, hnodes, -, -, -, -, rfl⟩ := hout
  have hperm := meshRoutes_perm hnodes
  have hroutes : ∀ r ∈ t.liveNodes.filter fun r => !r.isHub, ∀ p ∈ t.subnetsOf r.id, Routes t r.id p := by
    intro r hr p hp
    obtain ⟨hlive, hhub⟩ := List.mem_filter.mp hr
    obtain ⟨hr, hlive⟩ := List.mem_filter.mp hlive
    obtain ⟨hactive, haddr⟩ := of_decide_eq_true hlive
    exact ⟨⟨r, hr, rfl, hactive, haddr, by simpa using hhub⟩, hp⟩
  unfold mesh
  apply List.Nodup.append
  · apply hperm.nodup_iff.mpr
    apply List.nodup_flatMap.mpr
    refine ⟨fun r _ => subnetsOf_nodup wf r.id, ?_⟩
    have hne : (t.liveNodes.filter fun r => !r.isHub).Pairwise fun a b => a.id ≠ b.id := by
      apply List.Pairwise.filter
      apply List.Pairwise.filter
      exact List.pairwise_map.mp wf.nodes_pkey
    -- two nodes with one subnet would share it
    refine hne.imp_of_mem fun {a b} ha hb hab p hpa hpb => ?_
    exact hab (h.apart _ _ p (hroutes a ha p hpa) (hroutes b hb p hpb))
  · split
    · exact List.nodup_singleton _
    · exact List.nodup_nil
  · intro p hp hpool
    split at hpool
    · obtain rfl := List.mem_singleton.mp hpool
      obtain ⟨r, hr, hpr⟩ := List.mem_flatMap.mp (hperm.mem_iff.mp hp)
      exact h.pool r.id (hroutes r hr _ hpr)
    · exact absurd hpool List.not_mem_nil

/-! ## The exit routes -/

/-- No two addresses of the pool have one index: it is IPv4 and has at least 16 leading bits. -/
def IndexTells (pool : Prefix) : Prop :=
  ∀ a b, pool.contains a = true → pool.contains b = true → (exitIndex a).isSome = true →
    exitIndex a = exitIndex b → a = b

/-- In a pool of at most sixteen host bits the index tells two nodes apart. -/
theorem indexTells_of_bits {x : BitVec 32} {bits : Nat} (hbits : 16 ≤ bits) : IndexTells ⟨.v4 x, bits⟩ := by
  intro a b ha hb _ h
  cases a with
  | v4 y => exact exitIndex_inj hbits ha ha hb h
  | _ => exact absurd ha (by simp [Prefix.contains])

/-- The nodes of exit routes are live nodes that are not the hub's. -/
theorem exit_node (hout : SnapshotOf t out) {r : ExitRoute} (hr : r ∈ exitRoutes out.grants) :
    ∃ n ∈ t.liveNodes, n.isHub = false ∧ n.address = some r.node := by
  obtain ⟨g, hg, rfl⟩ := List.mem_map.mp hr
  obtain ⟨hg, hexit⟩ := List.mem_filter.mp hg
  obtain ⟨row, -, c, -, n, hn, -, -, -, -, haddr, -, -, -, hnodeExit⟩ := hout.grant hg
  have hhub : n.isHub = false := by
    rw [hnodeExit] at hexit
    simp only [Bool.and_eq_true, Bool.not_eq_eq_eq_not, Bool.not_true] at hexit
    exact hexit.2
  refine ⟨n, hn, hhub, ?_⟩
  obtain ⟨-, hlive⟩ := List.mem_filter.mp hn
  obtain ⟨-, hsome⟩ := of_decide_eq_true hlive
  obtain ⟨a, ha⟩ := Option.ne_none_iff_exists'.mp hsome
  show n.address = some g.nodeAddr
  rw [haddr, ha]
  rfl

/-- **The source rules**: no two grants have the same, where a device has one exit or the index tells nodes
    apart. -/
theorem exitRules_nodup (wf : t.Constraints) (hout : SnapshotOf t out)
    (hpool : ∀ n ∈ t.liveNodes, n.isHub = false → ∀ a, n.address = some a → t.hub.poolCIDR.contains a = true)
    (htell : IndexTells t.hub.poolCIDR ∨ ∀ g ∈ t.grants, ∀ h ∈ t.grants, g.exit = true → h.exit = true →
      g.clientId = h.clientId → g.nodeId = h.nodeId) :
    ((exitRoutes out.grants).filterMap exitRule).Nodup := by
  obtain ⟨nodes, clients, rules, grants, links, hnodes, hclients, -, hgrants, -, rfl⟩ := hout
  have hkeys : grants.Pairwise fun a b => a ∈ t.grants ∧ b ∈ t.grants ∧ a.key ≠ b.key := by
    have hnodup : (grants.map GrantRow.key).Nodup :=
      (hgrants.map _).nodup_iff.mpr (wf.grants_pkey.sublist (List.filter_sublist.map _))
    have hmem : ∀ g ∈ grants, g ∈ t.grants := fun g hg => (List.mem_filter.mp (hgrants.mem_iff.mp hg)).1
    exact (List.pairwise_map.mp hnodup).imp_of_mem fun ha hb hne => ⟨hmem _ ha, hmem _ hb, hne⟩
  have hjoined : (grants.filterMap (joinGrant nodes clients rules)).Pairwise fun g g' =>
      g.nodeExit = true → g'.nodeExit = true →
        ∀ x, exitRule ⟨g.clientAddr, g.nodeAddr⟩ = some x → exitRule ⟨g'.clientAddr, g'.nodeAddr⟩ ≠ some x := by
    apply hkeys.filterMap
    rintro row row' ⟨hrow, hrow', hne⟩ g hg g' hg' hexit hexit' x hx hx'
    obtain ⟨c, hc, n, hn, -, hcid, hnid, hcaddr, hnaddr, -, -, -, hflag⟩ := hnodes.grant hclients hg
    obtain ⟨c', hc', n', hn', -, hcid', hnid', hcaddr', hnaddr', -, -, -, hflag'⟩ := hnodes.grant hclients hg'
    obtain ⟨i, hi, rfl⟩ := exitRule_eq hx
    obtain ⟨j, hj, he⟩ := exitRule_eq hx'
    obtain ⟨hclient, htable⟩ := ExitRule.mk.inj he
    -- one client, as its address says
    have hsame : row.clientId = row'.clientId := by
      have hrows : c = c' := client_eq_of_address wf hc hc'
        (hcaddr.symm.trans (hclient.trans hcaddr'))
      rw [← hcid, ← hcid', hrows]
    have hdiff : row.nodeId ≠ row'.nodeId := fun he => hne (Prod.ext hsame he)
    rw [hflag, Bool.and_eq_true, Bool.not_eq_eq_eq_not, Bool.not_true] at hexit
    rw [hflag', Bool.and_eq_true, Bool.not_eq_eq_eq_not, Bool.not_true] at hexit'
    rcases htell with htell | hone
    · have haddr : ∀ {n : NodeRow} {a : Addr}, n ∈ t.liveNodes → a = n.address.getD .invalid → n.address = some a := by
        intro n a hn ha
        obtain ⟨-, hsome⟩ := of_decide_eq_true (List.mem_filter.mp hn).2
        obtain ⟨b, hb⟩ := Option.ne_none_iff_exists'.mp hsome
        rw [ha, hb]
        rfl
      have ha := haddr hn hnaddr
      have ha' := haddr hn' hnaddr'
      have hfar : g.nodeAddr = g'.nodeAddr := by
        apply htell _ _ (hpool n hn hexit.2 _ ha) (hpool n' hn' hexit'.2 _ ha')
        · rw [show exitIndex g.nodeAddr = some i from hi]
          rfl
        · rw [show exitIndex g.nodeAddr = some i from hi, show exitIndex g'.nodeAddr = some j from hj,
            Nat.add_left_cancel htable]
      -- one node, as its address says
      have hrows : n = n' := by
        rw [← hfar] at ha'
        exact eq_of_nodup_filterMap wf.nodes_address_key (List.mem_filter.mp hn).1 (List.mem_filter.mp hn').1 ha ha'
      exact hdiff (by rw [← hnid, ← hnid', hrows])
    · exact hdiff (hone row hrow row' hrow' hexit.1 hexit'.1 hsame)
  have hroutes := List.pairwise_map (R := fun r r' : ExitRoute => ∀ x, exitRule r = some x → exitRule r' ≠ some x).mpr
    (List.pairwise_filter.mpr hjoined)
  apply hroutes.filterMap
  rintro r r' hne x hx y hy rfl
  exact hne x hx hy

/-! ## Runs -/

/-- **Reconcile does not trip over its own input.** In every run of store calls in which no commit brings in a
    subnet that is shared, and either the pool's addresses are told apart by their index or no two exits of one
    device are enabled side by side: the mesh and the source rules of every snapshot have nothing twice, and on
    a host where only `ip rule add` can fail the two calls run to their end. -/
theorem reconcile_adds_no_rule_twice {secret : String} {s : Server}
    (h : StepsIn Store.apply Op.body
      (fun s => BringsUnshared s ∧ (IndexTells hub.poolCIDR ∨ NoExitRace s)) (Sys.idle (Db.boot hub secret)) s)
    (hout : SnapshotOf s.committed.toTables out) (hl : Serviceable hub l.net) :
    (mesh out.hub out.nodes).Nodup ∧ ((exitRoutes out.grants).filterMap exitRule).Nodup ∧
      ∃ l', Finishes Task.perform (routeCalls out) l l' ∧ Serviceable hub l'.net := by
  have haddr : AddrInv hub s.committed := addrInv_of_steps (stepsIn_mono (fun _ _ => trivial) h)
  have hindex : ∀ n ∈ s.committed.nodes, n.isHub = false → ∀ a, n.address = some a → a.as4.isSome = true :=
    as4_of_steps (fun n hn => absurd hn List.not_mem_nil) h
  have hun : Unshared s.committed.toTables := by
    refine unshared_of_steps (fun _ hs => hs.1) ⟨fun id hroutes => ?_, fun id id' p hroutes => ?_⟩ h
    all_goals
      obtain ⟨⟨n, hn, -⟩, -⟩ := hroutes
      exact absurd hn List.not_mem_nil
  -- either the pool tells two nodes apart by their indices, or no device has two exits
  have htell : IndexTells hub.poolCIDR ∨ OneExit s.committed := by
    by_cases hpool : IndexTells hub.poolCIDR
    · exact .inl hpool
    · have hrun : StepsIn Store.apply Op.body NoExitRace (Sys.idle (Db.boot hub secret)) s :=
        stepsIn_mono (fun _ hs => hs.2.resolve_left hpool) h
      refine .inr (Protocol.good_of_steps (π := exitProtocol) (fun op c _ => body_wp_exit op c) ?_ hrun)
      exact fun g hg => absurd hg List.not_mem_nil
  have hhub : out.hub = hub := hout.hub.trans haddr.hub_eq
  have hpool : ∀ n ∈ s.committed.liveNodes, n.isHub = false → ∀ a, n.address = some a →
      hub.poolCIDR.contains a = true := by
    intro n hn hnot a ha
    rcases haddr.node_host n (List.mem_filter.mp hn).1 a ha with hhost | ⟨hisHub, -⟩
    · exact hhost.inPool
    · exact absurd (hnot.symm.trans hisHub) (by simp)
  have hmesh := mesh_nodup s.committed.wf hout hun
  have hrules : ((exitRoutes out.grants).filterMap exitRule).Nodup := by
    apply exitRules_nodup s.committed.wf hout
    · rwa [haddr.hub_eq]
    · rwa [haddr.hub_eq]
  obtain ⟨devs, rules, hplan⟩ : ∃ devs rules, exitPlan (exitRoutes out.grants) = some (devs, rules) := by
    apply exitPlan_isSome
    intro r hr
    obtain ⟨n, hn, hnot, ha⟩ := exit_node hout hr
    simpa [exitIndex] using hindex n (List.mem_filter.mp hn).1 hnot _ ha
  have hnodes : ∀ r ∈ exitRoutes out.grants, out.hub.poolCIDR.contains r.node = true := by
    intro r hr
    obtain ⟨n, hn, hnot, ha⟩ := exit_node hout hr
    rw [hhub]
    exact hpool n hn hnot _ ha
  rw [← hhub] at hl ⊢
  refine ⟨hmesh, hrules, exists_routeCalls hl hnodes hplan hmesh ?_⟩
  exact (exitPlan_rules hplan).nodup_iff.mpr hrules

/-- A subnet that two nodes have. -/
def sharedLan : Prefix := ⟨.ofBytes 192 168 1 0, 24⟩

/-- Two home servers behind routers of one make enrol and are approved. -/
def sameLans : List Op :=
  [.enrollNode 1 "token1" "home" "home" "eth0" "pub1" [sharedLan] 0, .approveNode 1,
    .enrollNode 2 "token2" "office" "office" "eth0" "pub2" [sharedLan] 0, .approveNode 2]

/-- The hub with its tunnel up. -/
def demoUp : Live := { demoHost with net := awgUp exitDemo demoHost.net }

/-- **The defect.** Their subnet is in the mesh twice, and every reconcile ends with an error. -/
theorem reconcile_adds_rule_twice : ∃ s l, Steps Store.apply Op.body (Sys.idle (Db.boot demoHub "")) s ∧
    Serviceable demoHub l.net ∧ ∃ out, SnapshotOf s.committed.toTables out ∧
      ¬ (mesh out.hub out.nodes).Nodup ∧ ¬ ∃ l', Finishes Task.perform (routeCalls out) l l' := by
  have hrun : (runAll Store.apply Op.body (fun _ _ => true) (Db.boot demoHub "") sameLans).map (fun db =>
      (mesh (snapshot db.toTables).hub (snapshot db.toTables).nodes, exitRoutes (snapshot db.toTables).grants)) =
      some ([sharedLan, sharedLan, demoHub.poolCIDR], []) := by decide +kernel
  obtain ⟨db, hdb, hrows⟩ := Option.map_eq_some_iff.mp hrun
  obtain ⟨hmesh, hexits⟩ := Prod.mk.inj hrows
  have htwice : ¬ (mesh (snapshot db.toTables).hub (snapshot db.toTables).nodes).Nodup := by
    rw [hmesh]
    decide
  refine ⟨Sys.idle db, demoUp, stepsIn_of_calls (fun _ => trivial) (fun _ => trivial) (calls_of_runAll hdb),
    demoHost_bare.serviceable, snapshot db.toTables, snapshot_spec _, htwice, ?_⟩
  rintro ⟨l', h⟩
  have hplan : exitPlan (exitRoutes (snapshot db.toTables).grants) = some ([], []) := by
    rw [hexits]
    rfl
  exact htwice (nodup_of_routeCalls hplan h).1

/-- The call touches no node, or creates the first one and does not give it the pool. -/
def bringsNone (db : Db) : Op → Bool
  | .createNode _ _ _ subnets _ _ => db.subnets = [] ∧ db.hub.poolCIDR ∉ subnets
  | .createClient _ _ _ _ _ => true
  | .setGrant _ _ => true
  | .setGrantExit _ _ _ => true
  | _ => false

/-- Of the calls that pass the test only the first node's creation brings in a subnet, and not the pool. -/
theorem brings_of_bringsNone {db : Db} {op : Op} {pend : List Write} {id : Uuid} {p : Prefix}
    (hws : ∀ w ∈ pend, op.Writes w) (hop : bringsNone db op = true) (h : Brings db op pend id p) :
    db.subnets = [] ∧ ∃ name lanIface subnets keys psk, op = .createNode id name lanIface subnets keys psk ∧
      p ∈ subnets ∧ db.hub.poolCIDR ∉ subnets := by
  have hgains : Gains pend id p → db.subnets = [] ∧ ∃ name lanIface subnets keys psk,
      op = .createNode id name lanIface subnets keys psk ∧ p ∈ subnets ∧ db.hub.poolCIDR ∉ subnets := by
    intro hgains
    have hw := hws _ hgains
    cases hw with
    | createNode_subnet hs =>
      obtain ⟨hnone, hpool⟩ := of_decide_eq_true hop
      exact ⟨hnone, _, _, _, _, _, rfl, hs, hpool⟩
    | _ => exact absurd hop (by simp [bringsNone])
  rcases h with ⟨hg, -⟩ | ⟨hp | hg, hwakes⟩
  · exact hgains hg
  · -- a node that is new has no subnet yet
    rcases hwakes with rfl | ⟨n, hn, -⟩
    · exact absurd hop (by simp [bringsNone])
    · have hw := hws _ hn
      cases hw with
      | createNode a =>
        rw [mem_subnetsOf, (of_decide_eq_true hop).1] at hp
        exact absurd hp List.not_mem_nil
      | _ => exact absurd hop (by simp [bringsNone])
  · exact hgains hg

/-- Such a call alone. -/
theorem bringsUnshared_of_solo {s : Server} {i : Nat} {op : Op} {n : Nat} {pend : List Write} {rest : Tx Unit}
    (hs : Solo s i ⟨op, n, pend, rest⟩) (hws : ∀ w ∈ pend, op.Writes w)
    (hop : bringsNone s.committed op = true) : BringsUnshared s := by
  intro j t hj _ id p hbrings
  have hone : t = ⟨op, n, pend, rest⟩ := by
    by_cases hji : j = i
    · subst hji
      exact Option.some.inj (hj.symm.trans hs.here)
    · exact absurd (hj.symm.trans (hs.alone j hji)) (by simp)
  subst hone
  obtain ⟨hnone, name, lanIface, subnets, keys, psk, rfl, hp, hpool⟩ := brings_of_bringsNone hws hop hbrings
  refine ⟨fun he => hpool (he ▸ hp), fun id' hid => ⟨fun hroutes => ?_, fun hbrings' => ?_⟩⟩
  · have hmem := mem_subnetsOf.mp hroutes.2
    rw [hnone] at hmem
    exact absurd hmem List.not_mem_nil
  · obtain ⟨-, _, _, _, _, _, he, -⟩ := brings_of_bringsNone hws hop hbrings'
    exact hid (Op.createNode.inj he).1.symm

/-- A home server and a phone that browses through it. -/
def oneHome : List Op :=
  [.createNode 1 "home" "eth0" [sharedLan] ⟨"priv1", "pub1"⟩ "", .createClient 3 "phone" "" ⟨"priv3", "pub3"⟩ "",
    .setGrant 3 1, .setGrantExit 3 1 true]

/-- One home server with an exit: the route commands run to their end. -/
theorem reconcile_adds_no_rule_twice_home : ∃ db,
    runAll Store.apply Op.body (fun op db => bringsNone db op) (Db.boot demoHub "") oneHome = some db ∧
    exitRoutes (snapshot db.toTables).grants = demoExits ∧
    ∃ l', Finishes Task.perform (routeCalls (snapshot db.toTables)) demoUp l' := by
  have hrun : (runAll Store.apply Op.body (fun op db => bringsNone db op) (Db.boot demoHub "") oneHome).map
      (fun db => exitRoutes (snapshot db.toTables).grants) = some demoExits := by decide +kernel
  obtain ⟨db, hdb, hexits⟩ := Option.map_eq_some_iff.mp hrun
  have hsteps : StepsIn Store.apply Op.body
      (fun s => BringsUnshared s ∧ (IndexTells demoHub.poolCIDR ∨ NoExitRace s)) (Sys.idle (Db.boot demoHub ""))
      (Sys.idle db) := by
    have htell : IndexTells demoHub.poolCIDR := indexTells_of_bits (by decide)
    refine stepsIn_of_calls_where (W := Op.Writes) (fun c => ⟨?_, .inl htell⟩) (fun hop hs hws => ⟨?_, .inl htell⟩)
      body_allWrites (calls_of_runAll hdb)
    · exact fun j t hj => absurd hj (by simp [Sys.idle])
    · exact bringsUnshared_of_solo hs hws hop
  obtain ⟨-, -, l', h, -⟩ := reconcile_adds_no_rule_twice hsteps (snapshot_spec _) (l := demoUp)
    demoHost_bare.serviceable
  exact ⟨db, hdb, hexits, l', h⟩

end Service
end BeautyAwg
