import BeautyAwg.Awg.Correctness.NftMeaning
import BeautyAwg.Service.Correctness.Routing

/-!
# `Service.Correctness.ExitRouting`: exit traffic and the ACL

Once a reconcile has run to its end, routing and ACL agree on what an exit client may send where
(`exit_routing_settled`), whatever came before it on this host. While one is under way they need not.
-/

namespace BeautyAwg
namespace Service

open Netip Nft Awg Store PolicyRouting Tasks

variable {net net' : Kernel Nat Dev} {l l' : Live} {s : Snapshot} {t : Task} {hub : Hub}

/-! ## The ends of the tunnels -/

/-- What an exit device's tunnel joins: the hub and the pool address that the device is named after. -/
def FarEnd (hub : Hub) (dev : Dev) (near far : Addr) : Prop :=
  near = hub.address ∧ hub.poolCIDR.contains far = true ∧ ∃ i, dev = .exit i ∧ exitIndex far = some i

/-- Every exit device is named after the far end of its tunnel. -/
def Tunnels (hub : Hub) (net : Kernel Nat Dev) : Prop :=
  ∀ link ∈ net.links, link.dev.isExit = true →
    ∃ near far, link.tunnel = some (near, far) ∧ FarEnd hub link.dev near far

/-- Whatever tunnel the task makes, it leads from the hub to the device's own node. -/
def Task.Ends (hub : Hub) (t : Task) : Prop :=
  (∀ d near, t = .ensureLink d near → FarEnd hub d.name near d.remote) ∧
    ∀ dev near far, t.cmd = some (.addTunnel dev near far) → FarEnd hub dev near far

/-- The snapshot is of this hub, and its exits are in the pool. -/
def OfHub (hub : Hub) (s : Snapshot) : Prop :=
  s.hub.address = hub.address ∧ ∀ g ∈ s.grants, g.nodeExit = true → hub.poolCIDR.contains g.nodeAddr = true

/-- A task for ends of the hub leaves every exit device with its own far end. -/
theorem Tunnels.perform {t : Task} {fault : Bool} (ht : t.Ends hub) (hl : Tunnels hub l.net) :
    Tunnels hub (t.perform fault l).1.net ∧
      ∀ new, (t.perform fault l).2 = some new → ∀ u ∈ new, u.Ends hub := by
  constructor
  · have hperformed := performed t fault l
    generalize (t.perform fault l).1 = l' at hperformed ⊢
    cases hperformed with
    | up _ =>
      intro link hlink hexit
      rcases List.mem_append.mp hlink with hlink | hlink
      · exact hl link hlink hexit
      · rw [List.mem_singleton.mp hlink] at hexit
        exact absurd hexit (by simp [Dev.isExit])
    | command hcmd hc =>
      intro link hlink hexit
      rcases mem_links_exec hc hlink with ⟨old, hold, hdev, htunnel⟩ | ⟨near, far, rfl, htunnel⟩
      · rw [← hdev, ← htunnel]
        exact hl old hold (hdev ▸ hexit)
      · exact ⟨near, far, htunnel, ht.2 _ near far hcmd⟩
    | _ => exact hl
  · intro new hnew u hu
    have hunfolds := unfolds hnew hu
    cases hunfolds with
    | flush pref => exact ht
    | addTunnel d near =>
      refine ⟨fun _ _ he => absurd he (by simp), fun dev near' far he => ?_⟩
      obtain ⟨rfl, rfl, rfl⟩ := Cmd.addTunnel.inj (Option.some.inj he)
      exact ht.1 d near rfl
    | _ => exact ⟨fun _ _ he => absurd he (by simp), fun _ _ _ he => absurd he (by simp [Task.cmd])⟩

/-- The tasks for the exits speak of far ends in the pool only. -/
theorem ensureExitRoutes_ends {mesh : List Prefix} {routes : List ExitRoute}
    (hnodes : ∀ r ∈ routes, hub.poolCIDR.contains r.node = true) :
    ∀ t ∈ Applier.ensureExitRoutes hub.address mesh routes, t.Ends hub := by
  intro t ht
  have htask := exitTask ht
  cases htask with
  | ensureLink hr hi =>
    refine ⟨fun d near he => ?_, fun _ _ _ he => absurd he (by simp [Task.cmd])⟩
    obtain ⟨rfl, rfl⟩ := Task.ensureLink.inj he
    exact ⟨rfl, hnodes _ hr, _, rfl, hi⟩
  | _ => simp [Task.Ends, Task.cmd]

/-- The tasks of a whole reconcile do so too. -/
theorem reconcile_ends (hs : OfHub hub s) : ∀ t ∈ reconcile s, t.Ends hub := by
  intro t ht
  rcases List.mem_append.mp ht with ht | ht
  · have hplain : (∀ d near, t ≠ .ensureLink d near) ∧ ∀ dev near far, t.cmd ≠ some (.addTunnel dev near far) := by
      rcases List.mem_append.mp ht with ht | ht
      · simp only [Applier.apply, List.mem_cons, List.not_mem_nil, or_false] at ht
        rcases ht with rfl | rfl | rfl <;> simp [Task.cmd]
      · obtain ⟨p, -, rfl⟩ := List.mem_map.mp ht
        simp [Task.cmd]
    exact ⟨fun d near he => absurd he (hplain.1 d near), fun dev near far he => absurd he (hplain.2 dev near far)⟩
  · have haddr : (Plan.of s).hubAddr = hub.address := hs.1
    rw [haddr] at ht
    refine ensureExitRoutes_ends (fun r hr => ?_) t ht
    obtain ⟨g, hg, rfl⟩ := List.mem_map.mp hr
    obtain ⟨hg, hexit⟩ := List.mem_filter.mp hg
    exact hs.2 g hg hexit

/-- So it holds after any number of reconciles, wherever they were cut short. -/
theorem runs_tunnels {c : List Task × Live} (h : Runs (OfHub hub) ([], l) c) (hclean : CleanHost l.net) :
    (∀ t ∈ c.1, t.Ends hub) ∧ Tunnels hub c.2.net := by
  induction h with
  | refl =>
    refine ⟨fun t ht => absurd ht List.not_mem_nil, fun link hlink hexit => ?_⟩
    exact absurd ((hclean.links link hlink).symm.trans hexit) (by simp)
  | tail _ hmove ih =>
    cases hmove with
    | start hs => exact ⟨reconcile_ends hs, ih.2⟩
    | command hstep => exact hstep.keeps (P := fun m => Tunnels hub m.net) (fun t fault m => Tunnels.perform) ih.1 ih.2

/-- A list of such tasks that finishes keeps it too. -/
theorem finishes_tunnels {ts : List Task} (h : Finishes Task.perform ts l l') (hts : ∀ t ∈ ts, t.Ends hub)
    (hl : Tunnels hub l.net) : Tunnels hub l'.net := by
  apply h.keeps (G := Task.Ends hub) (P := fun m => Tunnels hub m.net) _ hts hl
  intro t m m' new ht hm hperform
  have hkeep : Tunnels hub (t.perform false m).1.net ∧
      ∀ new, (t.perform false m).2 = some new → ∀ u ∈ new, u.Ends hub := hm.perform ht
  rw [hperform] at hkeep
  exact ⟨hkeep.1, hkeep.2 new rfl⟩

/-- In an IPv4 pool of at least 16 leading bits the last two bytes tell addresses apart. -/
theorem exitIndex_inj {pool : Prefix} {a b : Addr} {y : BitVec 32} (hbits : 16 ≤ pool.bits)
    (hy : pool.contains (.v4 y) = true) (ha : pool.contains a = true) (hb : pool.contains b = true)
    (h : exitIndex a = exitIndex b) : a = b := by
  obtain ⟨x, hx, hle, -⟩ := contains_v4.mp hy
  have h4 : ∀ {c : Addr}, pool.contains c = true → ∃ z, c = .v4 z := by
    intro c hc
    cases c with
    | v4 z => exact ⟨z, rfl⟩
    | _ => exact absurd hc (by simp [Prefix.contains, hx])
  obtain ⟨u, rfl⟩ := h4 ha
  obtain ⟨v, rfl⟩ := h4 hb
  obtain ⟨x₁, hx₁, -, hu⟩ := contains_v4.mp ha
  obtain ⟨x₂, hx₂, -, hv⟩ := contains_v4.mp hb
  obtain rfl := Addr.v4.inj (hx₁.symm.trans hx₂)
  -- the leading bits are the pool's, the others are the index
  have hhigh : u.toNat / 2 ^ (32 - pool.bits) = v.toNat / 2 ^ (32 - pool.bits) := hu.symm.trans hv
  have hlow : u.toNat % 65536 = v.toNat % 65536 := by
    simpa [exitIndex, Addr.as4] using h
  have hcoarse : u.toNat / 65536 = v.toNat / 65536 := by
    have hsplit : 65536 = 2 ^ (32 - pool.bits) * 2 ^ (pool.bits - 16) := by
      rw [← Nat.pow_add, show 32 - pool.bits + (pool.bits - 16) = 16 by omega]
    rw [hsplit, ← Nat.div_div_eq_div_mul, ← Nat.div_div_eq_div_mul, hhigh]
  congr 1
  apply BitVec.eq_of_toNat_eq
  rw [← Nat.div_add_mod u.toNat 65536, ← Nat.div_add_mod v.toNat 65536, hcoarse, hlow]

/-! ## What the rules decide -/

/-- What `Snapshot` can return: its rows joined, whatever they are. -/
def Assembled (s : Snapshot) : Prop :=
  ∃ hub nodes clients rules grants links, s = assemble hub nodes clients rules grants links

/-- The grants of a snapshot join a listed node and a listed device. -/
theorem Assembled.grant (h : Assembled s) {g : Grant} (hg : g ∈ s.grants) :
    (∃ n ∈ s.nodes, g.nodeAddr = n.address) ∧ (∃ c ∈ s.clients, g.clientAddr = c.address) ∧
      (g.nodeExit = true → g.isExit = false) := by
  obtain ⟨hub, nodes, clients, rules, grants, links, rfl⟩ := h
  obtain ⟨row, -, hjoin⟩ := List.mem_filterMap.mp hg
  unfold joinGrant at hjoin
  split at hjoin
  · rename_i client node hc hn
    obtain rfl := Option.some.inj hjoin
    refine ⟨⟨node, List.mem_map.mpr ⟨_, mem_of_lookup hn, rfl⟩, rfl⟩,
      ⟨client, List.mem_map.mpr ⟨_, mem_of_lookup hc, rfl⟩, rfl⟩, fun hexit => ?_⟩
    simp only [Bool.and_eq_true, Bool.not_eq_eq_eq_not, Bool.not_true] at hexit
    exact hexit.2
  · exact absurd hjoin (by simp)

/-- The mesh of the policy rules is the mesh of the ACL. -/
theorem mem_mesh_contains {nodes : List Node} {y : BitVec 32} :
    (∃ q ∈ mesh hub nodes, q.contains (.v4 y) = true) ↔ InMesh hub nodes y := mem_nftMesh_contains

/-- The rule for a subnet applies to the packets into it. -/
theorem applies_meshRule {q : Prefix} {src dst : Addr} :
    (Applier.meshRule q).applies src dst = true ↔ q.contains dst = true := by
  simp [Rule.applies, Applier.meshRule]

/-- The rule for a device applies to its own packets. -/
theorem applies_sourceRule {x : ExitRule} {y : BitVec 32} {dst : Addr} :
    (Applier.sourceRule x).applies (.v4 y) dst = true ↔ x.client = .v4 y := by
  simp [Rule.applies, Applier.sourceRule, host_contains]

variable {mesh : List Prefix} {devs : List ExitDevice} {rules : List ExitRule} {x y : BitVec 32}

/-- With the plan in place a subnet has its rule when it is in the mesh. -/
theorem HasPlan.mesh_rule (h : HasPlan mesh devs rules net) {q : Prefix} :
    Applier.meshRule q ∈ net.rules ↔ q ∈ mesh := by
  have hat : Applier.meshRule q ∈ net.rulesAt exitMeshPref ↔ Applier.meshRule q ∈ net.rules := by
    simp [Kernel.rulesAt, Applier.meshRule]
  rw [← hat, h.meshRules, List.mem_map]
  constructor
  · rintro ⟨q', hq', he⟩
    obtain rfl : q' = q := by simpa [Applier.meshRule] using he
    exact hq'
  · intro hq
    exact ⟨q, hq, rfl⟩

/-- With the plan in place a device has a rule when the plan gives it one. -/
theorem HasPlan.source_rule (h : HasPlan mesh devs rules net) {c : Addr} {i : Nat} :
    Applier.sourceRule ⟨c, exitTableBase + i⟩ ∈ net.rules ↔ ⟨c, exitTableBase + i⟩ ∈ rules := by
  have hat : Applier.sourceRule ⟨c, exitTableBase + i⟩ ∈ net.rulesAt exitPref ↔
      Applier.sourceRule ⟨c, exitTableBase + i⟩ ∈ net.rules := by
    simp [Kernel.rulesAt, Applier.sourceRule]
  rw [← hat, h.sourceRules, List.mem_map]
  constructor
  · rintro ⟨r, hr, he⟩
    obtain rfl : r = ⟨c, exitTableBase + i⟩ := by
      obtain ⟨c', t'⟩ := r
      simpa [Applier.sourceRule, Prefix.host] using he
    exact hr
  · intro hr
    exact ⟨_, hr, rfl⟩

/-- Inside the mesh the main table decides. -/
theorem route_inside (hr : Routed net) (h : HasPlan mesh devs rules net)
    (hin : ∃ q ∈ mesh, q.contains (.v4 y) = true) :
    net.route (.v4 x) (.v4 y) = net.lookup mainTable (.v4 y) := by
  obtain ⟨q, hq, hqy⟩ := hin
  obtain ⟨dev, hdev, -⟩ := lookup_main hr y
  rw [hdev]
  apply route_eq_some hr.sorted (h.mesh_rule.mpr hq) (applies_meshRule.mpr hqy) hdev
  intro r' hr' hpref _
  rcases hr.rules r' hr' with rfl | ⟨p, rfl⟩ | ⟨c, i, rfl⟩
  · exact hdev
  · exact hdev
  · exact absurd hpref (by simp [Applier.meshRule, Applier.sourceRule, exitPref, exitMeshPref])

/-- Outside the mesh a client with one exit leaves by it. -/
theorem route_outside (hr : Routed net) (h : HasPlan mesh devs rules net) {i : Nat}
    (hout : ¬ ∃ q ∈ mesh, q.contains (.v4 y) = true) (hi : HasExit net i)
    (hrule : ⟨.v4 x, exitTableBase + i⟩ ∈ rules)
    (honly : ∀ j, ⟨.v4 x, exitTableBase + j⟩ ∈ rules → j = i) :
    net.route (.v4 x) (.v4 y) = some (.exit i) := by
  have hdev := lookup_exit hr hi.1 y
  apply route_eq_some hr.sorted (h.source_rule.mpr hrule) (applies_sourceRule.mpr rfl) hdev
  intro r' hr' hpref happ
  rcases hr.rules r' hr' with rfl | ⟨p, rfl⟩ | ⟨c, j, rfl⟩
  · exact absurd hpref (by simp [mainRule, Applier.sourceRule, exitPref])
  · exact absurd ⟨p, h.mesh_rule.mp hr', applies_meshRule.mp happ⟩ hout
  · obtain rfl : c = .v4 x := applies_sourceRule.mp happ
    rw [honly j (h.source_rule.mp hr')]
    exact hdev

/-- Without a source rule nothing leads to an exit. -/
theorem route_without (hr : Routed net) (h : HasPlan mesh devs rules net)
    (hnone : ∀ j, ⟨.v4 x, exitTableBase + j⟩ ∉ rules) {i : Nat} : net.route (.v4 x) (.v4 y) ≠ some (.exit i) := by
  intro hroute
  obtain ⟨r, hmem, happ, hlookup⟩ := rule_of_route hroute
  obtain ⟨dev, hdev, hexit⟩ := lookup_main hr y
  have hmain : r.table ≠ mainTable := by
    intro htable
    rw [htable, hdev] at hlookup
    obtain rfl := Option.some.inj hlookup
    exact absurd hexit (by simp [Dev.isExit])
  rcases hr.rules r hmem with rfl | ⟨p, rfl⟩ | ⟨c, j, rfl⟩
  · exact hmain rfl
  · exact hmain rfl
  · obtain rfl : c = .v4 x := applies_sourceRule.mp happ
    exact hnone j (h.source_rule.mp hmem)

/-! ## Settled -/

/-- A snapshot of a hub with a pool of at most 2^16 addresses, nodes and clients in it, and at most one exit
    for each client. -/
structure ExitsApart (s : Snapshot) : Prop where
  assembled : Assembled s
  pool : 16 ≤ s.hub.poolCIDR.bits
  nodes : ∀ n ∈ s.nodes, s.hub.poolCIDR.contains n.address = true
  clients : ∀ c ∈ s.clients, s.hub.poolCIDR.contains c.address = true
  oneExit : ∀ c, (s.grants.filter fun g => g.nodeExit = true ∧ g.clientAddr = c).length ≤ 1

/-- A device has one exit at most. -/
theorem ExitsApart.unique (hs : ExitsApart s) {g g' : Grant} (hg : g ∈ s.grants) (hg' : g' ∈ s.grants)
    (hexit : g.nodeExit = true) (hexit' : g'.nodeExit = true) (hc : g'.clientAddr = g.clientAddr) : g' = g := by
  have hone := hs.oneExit g.clientAddr
  have hmem : g ∈ s.grants.filter fun k => k.nodeExit = true ∧ k.clientAddr = g.clientAddr :=
    List.mem_filter.mpr ⟨hg, by simp [hexit]⟩
  have hmem' : g' ∈ s.grants.filter fun k => k.nodeExit = true ∧ k.clientAddr = g.clientAddr :=
    List.mem_filter.mpr ⟨hg', by simp [hexit', hc]⟩
  generalize s.grants.filter _ = found at hone hmem hmem'
  cases found with
  | nil => exact absurd hmem List.not_mem_nil
  | cons a rest =>
    obtain rfl : rest = [] := List.length_eq_zero_iff.mp (by simpa using hone)
    rw [List.mem_singleton.mp hmem, List.mem_singleton.mp hmem']

theorem ExitsApart.ofHub (hs : ExitsApart s) : OfHub s.hub s := by
  refine ⟨rfl, fun g hg _ => ?_⟩
  obtain ⟨⟨n, hn, he⟩, -⟩ := hs.assembled.grant hg
  rw [he]
  exact hs.nodes n hn

/-- A source rule comes from an exit grant of its client. -/
theorem grant_of_rule (h : exitPlan (exitRoutes s.grants) = some (devs, rules)) {c : Addr} {i : Nat}
    (hr : ⟨c, exitTableBase + i⟩ ∈ rules) :
    ∃ g ∈ s.grants, g.nodeExit = true ∧ g.clientAddr = c ∧ exitIndex g.nodeAddr = some i := by
  obtain ⟨r, hmem, hrule⟩ := ((mem_exitPlan h).2 _).mp hr
  obtain ⟨g, hg, rfl⟩ := List.mem_map.mp hmem
  obtain ⟨hg, hexit⟩ := List.mem_filter.mp hg
  obtain ⟨j, hj, he⟩ := exitRule_eq hrule
  obtain ⟨hc, htable⟩ := ExitRule.mk.inj he
  rw [Nat.add_left_cancel htable]
  exact ⟨g, hg, hexit, hc.symm, hj⟩

/-- The grant without its exit flag, if it is the client's. -/
def clearExit (c : Addr) (g : Grant) : Grant := if g.clientAddr = c then { g with nodeExit := false } else g

/-- Inside the mesh the exit flag opens nothing. -/
theorem accepts_clearExit {c : Addr} {p : Packet} (hin : InMesh s.hub s.nodes p.dst) :
    (forwardChain s.hub s.nodes (s.grants.map (clearExit c)) s.links).accepts p = true ↔
      (forwardChain s.hub s.nodes s.grants s.links).accepts p = true := by
  have hpermits : ∀ g : Grant, (clearExit c g).clientAddr = g.clientAddr ∧
      ((clearExit c g).Permits s.hub s.nodes p ↔ g.Permits s.hub s.nodes p) := by
    intro g
    unfold clearExit
    split
    · exact ⟨rfl, by simp [Grant.Permits, hin]⟩
    · exact ⟨rfl, Iff.rfl⟩
  rw [forwardChain_accepts, forwardChain_accepts]
  refine or_congr Iff.rfl (or_congr ?_ Iff.rfl)
  constructor
  · rintro ⟨g', hg', hsrc, hp⟩
    obtain ⟨g, hg, rfl⟩ := List.mem_map.mp hg'
    exact ⟨g, hg, (hpermits g).1 ▸ hsrc, (hpermits g).2.mp hp⟩
  · rintro ⟨g, hg, hsrc, hp⟩
    exact ⟨_, List.mem_map_of_mem hg, (hpermits g).1.trans hsrc, (hpermits g).2.mpr hp⟩

/-- **Settled exit routing and ACL agree.** Start from a clean host and let reconciles of the hub's snapshots
    run one after the other, each cut short anywhere; then let one run to its end. For each of its exit
    clients, what lies outside the mesh leaves by the device whose tunnel ends at the client's exit node, and
    the ACL accepts it; what lies inside leaves by no exit, and the ACL treats it as if the client had no
    exit. Nobody else is led to an exit. -/
theorem exit_routing_settled {l₀ : Live} (hs : ExitsApart s) (hclean : CleanHost l₀.net)
    (hruns : Runs (OfHub s.hub) ([], l₀) ([], l)) (h : Reconciles s l l') (p : Packet) :
    l'.acl = some s ∧
    (∀ g ∈ s.grants, g.nodeExit = true → g.clientAddr = .v4 p.src →
      (¬ InMesh s.hub s.nodes p.dst →
        (∃ i, l'.net.route (.v4 p.src) (.v4 p.dst) = some (.exit i) ∧
          (∃ link ∈ l'.net.links, link.dev = .exit i) ∧
          ∀ link ∈ l'.net.links, link.dev = .exit i → link.tunnel = some (s.hub.address, g.nodeAddr)) ∧
        (forwardChain s.hub s.nodes s.grants s.links).accepts p = true) ∧
      (InMesh s.hub s.nodes p.dst →
        (∀ i, l'.net.route (.v4 p.src) (.v4 p.dst) ≠ some (.exit i)) ∧
        ((forwardChain s.hub s.nodes s.grants s.links).accepts p = true ↔
          (forwardChain s.hub s.nodes (s.grants.map (clearExit (.v4 p.src))) s.links).accepts p = true))) ∧
    ((∀ g ∈ s.grants, g.nodeExit = true → g.clientAddr ≠ .v4 p.src) →
      ∀ i, l'.net.route (.v4 p.src) (.v4 p.dst) ≠ some (.exit i)) := by
  obtain ⟨hrouted, hacl, devs, rules, hplan, hhas⟩ := reconciles_installed h (runs_routed hruns hclean).2
  have htunnels : Tunnels s.hub l'.net :=
    finishes_tunnels h (reconcile_ends hs.ofHub) (runs_tunnels hruns hclean).2
  refine ⟨hacl, fun g hg hexit hc => ⟨fun hout => ?_, fun hin => ⟨?_, (accepts_clearExit hin).symm⟩⟩, ?_⟩
  · obtain ⟨i, hi, hdev, hrule⟩ := planned hplan (r := ⟨g.clientAddr, g.nodeAddr⟩)
      (List.mem_map.mpr ⟨g, List.mem_filter.mpr ⟨hg, hexit⟩, rfl⟩)
    have hhasExit := hhas.exits i g.nodeAddr hdev
    obtain ⟨-, ⟨c, hclient, hcaddr⟩, hnothub⟩ := hs.assembled.grant hg
    refine ⟨⟨i, ?_, hhasExit.2, fun link hlink hlinkdev => ?_⟩, ?_⟩
    · -- outside the mesh the device's own rule decides, and it has one exit
      apply route_outside hrouted hhas (mem_mesh_contains.not.mpr hout) hhasExit (hc ▸ hrule)
      intro j hj
      obtain ⟨g', hg', hexit', hc', hindex⟩ := grant_of_rule hplan hj
      obtain rfl := hs.unique hg hg' hexit hexit' (hc'.trans hc.symm)
      exact Option.some.inj (hindex.symm.trans hi)
    · -- the index tells the far end
      obtain ⟨near, far, htunnel, rfl, hfar, k, hk, hindex⟩ := htunnels link hlink (by rw [hlinkdev]; rfl)
      obtain rfl := Dev.exit.inj (hlinkdev.symm.trans hk)
      have hpool : s.hub.poolCIDR.contains (.v4 p.src) = true := by
        rw [← hc, hcaddr]
        exact hs.clients c hclient
      have hfar' := exitIndex_inj hs.pool hpool hfar (hs.ofHub.2 g hg hexit) (hindex.trans hi.symm)
      rw [htunnel, hfar']
    · apply forwardChain_accepts.mpr
      exact .inr (.inl ⟨g, hg, hc, .inr (.inl ⟨hnothub hexit, hexit, hout⟩)⟩)
  · intro i hroute
    -- inside the mesh the main table decides
    rw [route_inside hrouted hhas (mem_mesh_contains.mpr hin)] at hroute
    obtain ⟨dev, hdev, hnot⟩ := lookup_main hrouted p.dst
    obtain rfl := Option.some.inj (hdev.symm.trans hroute)
    exact absurd hnot (by simp [Dev.isExit])
  · intro hnone i
    -- without a rule of its own a packet is looked up in the main table
    apply route_without hrouted hhas
    intro j hj
    obtain ⟨g, hg, hexit, hc, -⟩ := grant_of_rule hplan hj
    exact hnone g hg hexit hc

/-! ### One home with one device -/

/-- A device browses through a home server. -/
def exitDemo : Snapshot :=
  assemble demoHub
    [(1, ⟨"home", .ofBytes 10 8 0 2, [⟨.ofBytes 192 168 1 0, 24⟩], ⟨"", "nodepub"⟩, "eth0", "", false, "", []⟩)]
    [(3, ⟨"phone", .ofBytes 10 8 0 3, ⟨"", "phonepub"⟩, "", ""⟩)] [] [⟨3, 1, true⟩] []

/-- A hub that has just been started: its WAN device, and nothing else. -/
def demoHost : Live := ⟨⟨[mainRule], [wanRoute], [⟨.wan, none, true, [.ofBytes 203 0 113 1]⟩]⟩, none, none⟩

theorem demoHost_clean : CleanHost demoHost.net where
  rules := rfl
  routes r hr := by
    rw [List.mem_singleton.mp hr]
    exact ⟨rfl, rfl⟩
  default := List.mem_singleton.mpr rfl
  links link hlink := by
    rw [List.mem_singleton.mp hlink]
    rfl

theorem exitDemo_apart : ExitsApart exitDemo where
  assembled := ⟨_, _, _, _, _, _, rfl⟩
  pool := by decide
  nodes := by decide
  clients := by decide
  oneExit _ := List.length_filter_le _ _

/-- After a reconcile on a clean host a packet of the device goes into its exit. -/
theorem exit_routing_settled_demo : ∃ l', Reconciles exitDemo demoHost l' ∧
    ∃ i, l'.net.route (.ofBytes 10 8 0 3) (.ofBytes 1 1 1 1) = some (.exit i) := by
  have hrun : (Tasks.run Task.perform 40 (reconcile exitDemo) demoHost).isSome = true := by decide
  obtain ⟨l', hl'⟩ := Option.isSome_iff_exists.mp hrun
  refine ⟨l', finishes_of_run hl', ?_⟩
  have hsettled := exit_routing_settled exitDemo_apart demoHost_clean .refl (finishes_of_run hl')
    ⟨0x0a080003, 0x01010101, "awgex2", .tcp, 443, .new, false, 0⟩
  have hout : ¬ InMesh exitDemo.hub exitDemo.nodes 0x01010101 := by
    rw [← mem_mesh_contains]
    decide
  obtain ⟨⟨i, hroute, -⟩, -⟩ := (hsettled.2.1 _ (List.mem_singleton.mpr rfl) rfl rfl).1 hout
  exact ⟨i, hroute⟩

end Service
end BeautyAwg
