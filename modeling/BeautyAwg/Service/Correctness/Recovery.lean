import BeautyAwg.Service.Correctness.ExitRouting

/-!
# `Service.Correctness.Recovery`: exit routing after runs that were cut short

A run of `EnsureExitRoutes` flushes the rules and builds everything again, but a device that is there it takes
for ready. What an earlier run left behind makes it fail in one case only: that run had added a device and not
set it up (`exit_routing_recovers`).

## Contents
- **Exit devices.** `Joined`, kept by every task.
- **Totality.** Each part of the program runs to its end, the devices' part where none of them is down:
  `exists_flush`, `exists_reap`, `exists_devices`, `exists_addRules`.
- **Recovery.** `ExitRuns`, `Recovers`.
-/

namespace BeautyAwg
namespace Service

open Netip Awg Store PolicyRouting Tasks

variable {net net' : Kernel Nat Dev} {l l' : Live} {t : Task} {hub : Hub} {mesh : List Prefix}
  {routes : List ExitRoute} {devs : List ExitDevice} {rules : List ExitRule}

/-! ## Exit devices -/

/-- Each exit device is there once and is named after the far end of its tunnel, and no other device has a
    tunnel that starts at the hub. -/
structure Joined (hub : Hub) (net : Kernel Nat Dev) : Prop where
  once : ((net.links.map Link.dev).filter Dev.isExit).Nodup
  ours : ∀ link ∈ net.links, ∀ far, link.tunnel = some (hub.address, far) → link.dev.isExit = true
  tunnels : Tunnels hub net

theorem map_dev_mapLink {dev : Dev} {f : Link Dev → Link Dev} (hf : ∀ link, (f link).dev = link.dev) :
    (net.mapLink dev f).links.map Link.dev = net.links.map Link.dev := by
  unfold Kernel.mapLink
  rw [List.map_map]
  apply List.map_congr_left
  intro link _
  show (if link.dev = dev then f link else link).dev = link.dev
  split
  · exact hf link
  · rfl

/-- A command makes no second link of an exit device. -/
theorem once_exec {c : Cmd Nat Dev} (hc : c.exec net = some net')
    (h : ((net.links.map Link.dev).filter Dev.isExit).Nodup) :
    ((net'.links.map Link.dev).filter Dev.isExit).Nodup := by
  obtain ⟨hallowed, rfl⟩ := exec_eq_some.mp hc
  cases c with
  | addTunnel dev near far =>
    simp only [Cmd.effect, List.map_append, List.filter_append]
    apply List.Nodup.append h
    · exact (List.nodup_singleton dev).filter _
    · -- the device was not there
      intro d hd hnew
      obtain rfl : d = dev := List.mem_singleton.mp (List.mem_filter.mp hnew).1
      obtain ⟨link, hlink, rfl⟩ := List.mem_map.mp (List.mem_filter.mp hd).1
      have hfree := List.all_eq_true.mp hallowed link hlink
      exact absurd rfl (of_decide_eq_true hfree).1
  | setUp dev =>
    simp only [Cmd.effect]
    rw [map_dev_mapLink]
    · exact h
    · exact fun _ => rfl
  | replaceAddr dev a =>
    simp only [Cmd.effect]
    rw [map_dev_mapLink]
    · exact h
    · exact fun _ => rfl
  | delLink dev =>
    apply List.Nodup.sublist _ h
    exact (List.Sublist.map _ List.filter_sublist).filter _
  | _ => exact h

/-- A task for ends of the hub keeps the devices joined to their far ends. -/
theorem Joined.perform {t : Task} {fault : Bool} (ht : t.Ends hub) (hl : Joined hub l.net) :
    Joined hub (t.perform fault l).1.net := by
  refine ⟨?_, ?_, (Tunnels.perform ht hl.tunnels).1⟩
  · have hperformed := performed t fault l
    generalize (t.perform fault l).1 = l' at hperformed ⊢
    cases hperformed with
    | up _ =>
      show (((l.net.links ++ [_]).map Link.dev).filter Dev.isExit).Nodup
      rw [List.map_append, List.filter_append]
      simpa [Dev.isExit] using hl.once
    | command hcmd hc => exact once_exec hc hl.once
    | _ => exact hl.once
  · have hperformed := performed t fault l
    generalize (t.perform fault l).1 = l' at hperformed ⊢
    cases hperformed with
    | up _ =>
      intro link hlink far htunnel
      rcases List.mem_append.mp hlink with hlink | hlink
      · exact hl.ours link hlink far htunnel
      · rw [List.mem_singleton.mp hlink] at htunnel
        exact absurd htunnel (by simp)
    | command hcmd hc =>
      intro link hlink far htunnel
      rcases mem_links_exec hc hlink with ⟨old, hold, hdev, hsame⟩ | ⟨near', far', rfl, -⟩
      · rw [← hdev]
        exact hl.ours old hold far (hsame.trans htunnel)
      · -- a new tunnel is an exit device
        obtain ⟨-, -, i, hi, -⟩ := ht.2 _ near' far' hcmd
        rw [hi]
        rfl
    | _ => exact hl.ours

/-- So does a list of such tasks that finishes. -/
theorem finishes_joined {ts : List Task} (h : Finishes Task.perform ts l l') (hts : ∀ t ∈ ts, t.Ends hub)
    (hl : Joined hub l.net) : Joined hub l'.net := by
  apply h.keeps (G := Task.Ends hub) (P := fun m => Joined hub m.net) _ hts hl
  intro t m m' new ht hm hperform
  have hjoined : Joined hub (t.perform false m).1.net := hm.perform ht
  have hends : ∀ new, (t.perform false m).2 = some new → ∀ u ∈ new, u.Ends hub := (hm.tunnels.perform ht).2
  rw [hperform] at hjoined hends
  exact ⟨hjoined, hends new rfl⟩

/-- A device whose name is free can be added. -/
theorem Joined.addTunnel_allowed (h : Joined hub net) {d : ExitDevice}
    (hd : FarEnd hub d.name hub.address d.remote) (hfree : net.linksAt d.name = []) :
    (Cmd.addTunnel d.name hub.address d.remote : Cmd Nat Dev).allowed net = true := by
  have hnot : ∀ link ∈ net.links, link.dev ≠ d.name := by
    intro link hlink hdev
    have hmem := mem_linksAt.mpr ⟨hlink, hdev⟩
    rw [hfree] at hmem
    exact absurd hmem List.not_mem_nil
  apply List.all_eq_true.mpr
  intro link hlink
  refine decide_eq_true ⟨hnot link hlink, fun htunnel => ?_⟩
  -- a device with these ends would have this name
  obtain ⟨near, far, htunnel', rfl, hfar, i, hi, hindex⟩ :=
    h.tunnels link hlink (h.ours link hlink d.remote htunnel)
  obtain ⟨-, rfl⟩ := Prod.mk.inj (Option.some.inj (htunnel.symm.trans htunnel'))
  obtain ⟨-, -, j, hj, hindex'⟩ := hd
  obtain rfl := Option.some.inj (hindex.symm.trans hindex')
  exact hnot link hlink (hi.trans hj.symm)

/-! ## Totality -/

/-- A command that is allowed goes through alone. -/
theorem finishes_cmd {cmd : Cmd Nat Dev} (h : cmd.allowed l.net = true) :
    Finishes Task.perform [.ip false cmd] l { l with net := cmd.effect l.net } := by
  apply Finishes.one
  simp [Task.perform, Cmd.exec, h]

/-- Flushing a preference always comes to its end and leaves the links. -/
theorem exists_flush (pref : Nat) (hs : l.net.Sorted) :
    ∃ m, Finishes Task.perform [.flushRules pref] l m ∧ m.net.links = l.net.links := by
  -- there is one rule fewer each time
  generalize hn : (l.net.rulesAt pref).length = n
  induction n generalizing l with
  | zero =>
    have hnone := delRule_eq_none.mpr (List.length_eq_zero_iff.mp hn)
    refine ⟨l, .one ?_, rfl⟩
    simp [Task.perform, hnone]
  | succ n ih =>
    cases hexec : (Cmd.delRule pref).exec l.net with
    | none =>
      rw [delRule_eq_none.mp hexec] at hn
      exact absurd hn (by simp)
    | some net =>
      have hat : net.rulesAt pref = (l.net.rulesAt pref).tail := by
        rw [rulesAt_exec hexec hs]
        simp [Cmd.onRules]
      obtain ⟨m, hm, hlinks⟩ := @ih { l with net := net } (exec_sorted hexec hs) (by
        show (net.rulesAt pref).length = n
        rw [hat, List.length_tail, hn, Nat.add_sub_cancel])
      have hperform : Task.perform (.flushRules pref) false l = ({ l with net := net }, some [.flushRules pref]) := by
        simp [Task.perform, hexec]
      refine ⟨m, .cons hperform hm, hlinks.trans ?_⟩
      obtain ⟨-, rfl⟩ := exec_eq_some.mp hexec
      rfl

/-- A tolerated command does, too, whether or not it had an effect. -/
theorem exists_tolerated (cmd : Cmd Nat Dev) :
    ∃ m, Finishes Task.perform [.ip true cmd] l m ∧
      ((cmd.exec l.net = none ∧ m = l) ∨ ∃ net, cmd.exec l.net = some net ∧ m = { l with net := net }) := by
  cases hexec : cmd.exec l.net with
  | none =>
    refine ⟨l, .one ?_, .inl ⟨rfl, rfl⟩⟩
    simp [Task.perform, hexec]
  | some net =>
    refine ⟨{ l with net := net }, .one ?_, .inr ⟨net, rfl, rfl⟩⟩
    simp [Task.perform, hexec]

/-- Deleting a list of devices leaves none of their links and all of the others'. -/
theorem exists_delLinks (gone : List Dev) :
    ∃ m, Finishes Task.perform (gone.map fun dev => .ip true (.delLink dev)) l m ∧
      m.net.rules = l.net.rules ∧
      ∀ dev, m.net.linksAt dev = if dev ∈ gone then [] else l.net.linksAt dev := by
  induction gone generalizing l with
  | nil => exact ⟨l, .nil, rfl, fun dev => (if_neg List.not_mem_nil).symm⟩
  | cons d gone ih =>
    obtain ⟨m₁, hfirst, hm₁⟩ := exists_tolerated (l := l) (.delLink d)
    obtain ⟨m, hrest, hrules, hlinks⟩ := @ih m₁
    have hdel : m₁.net.rules = l.net.rules ∧
        ∀ dev, m₁.net.linksAt dev = if d = dev then [] else l.net.linksAt dev := by
      rcases hm₁ with ⟨hnone, rfl⟩ | ⟨net, hnet, rfl⟩
      · -- there was no such device
        refine ⟨rfl, fun dev => ?_⟩
        split
        · rename_i hd
          subst hd
          by_contra hthere
          rw [← ne_eq, ← hasLink_eq_true] at hthere
          simp [Cmd.exec, Cmd.allowed, hthere] at hnone
        · rfl
      · refine ⟨?_, fun dev => linksAt_exec hnet dev⟩
        obtain ⟨-, rfl⟩ := exec_eq_some.mp hnet
        rfl
    refine ⟨m, ?_, hrules.trans hdel.1, fun dev => ?_⟩
    · rw [List.map_cons]
      exact finishes_append.mpr ⟨m₁, hfirst, hrest⟩
    · rw [hlinks dev, hdel.2 dev]
      by_cases hgone : dev ∈ gone
      · simp [hgone]
      · simp [hgone, eq_comm]

/-- Exit devices that nobody wants go, the others stay as they are. -/
theorem exists_reap (want : List Dev) :
    ∃ m, Finishes Task.perform [.reapDevices want] l m ∧ m.net.rules = l.net.rules ∧
      ∀ dev, m.net.linksAt dev = if dev.isExit = true ∧ dev ∉ want then [] else l.net.linksAt dev := by
  obtain ⟨m, hm, hrules, hlinks⟩ := exists_delLinks (l := l) (l.exitDevices.filter fun dev => dev ∉ want)
  have hrun : Finishes Task.perform [.reapDevices want] l m := by
    apply Finishes.cons rfl
    simpa using hm
  refine ⟨m, hrun, hrules, fun dev => ?_⟩
  rw [hlinks dev]
  by_cases hdev : dev ∈ l.net.links.map Link.dev
  · simp [Live.exitDevices, hdev, and_comm]
  · -- nothing of this name is there
    have hnone : l.net.linksAt dev = [] := by
      apply List.filter_eq_nil_iff.mpr
      intro link hlink he
      exact hdev (List.mem_map.mpr ⟨link, hlink, of_decide_eq_true he⟩)
    rw [hnone, ite_self, ite_self]

/-- The device is up and has the hub's address. -/
def Ready (hubAddr : Addr) (net : Kernel Nat Dev) (dev : Dev) : Prop :=
  ∃ link ∈ net.linksAt dev, link.up = true ∧ hubAddr ∈ link.addrs

theorem Ready.isUp {hubAddr : Addr} {dev : Dev} (h : Ready hubAddr net dev) : net.isUp dev = true := by
  obtain ⟨link, hlink, hup, -⟩ := h
  exact isUp_eq_true.mpr ⟨link, hlink, hup⟩

/-- A device that is ready is not down. -/
theorem Ready.not_down {hubAddr : Addr} {dev : Dev} (h : Ready hubAddr net dev) : ¬ net.Down dev := by
  intro hdown
  rw [Kernel.Down, h.isUp] at hdown
  exact absurd hdown.2 (by simp)

/-- A device that is missing is made, and one that is there is up unless it is down. -/
theorem exists_ensureLink {d : ExitDevice} (hl : Joined hub l.net)
    (hd : FarEnd hub d.name hub.address d.remote) (hdown : ¬ l.net.Down d.name) :
    ∃ m, Finishes Task.perform [.ensureLink d hub.address] l m ∧ m.net.rules = l.net.rules ∧
      m.net.isUp d.name = true ∧ ∀ dev ≠ d.name, m.net.linksAt dev = l.net.linksAt dev := by
  cases hthere : l.net.hasLink d.name with
  | true =>
    -- it is there, so nothing is done, and up, since it is not down
    refine ⟨l, .one ?_, rfl, ?_, fun _ _ => rfl⟩
    · simp [Task.perform, hthere]
    · by_contra hup
      exact hdown ⟨hthere, by simpa using hup⟩
  | false =>
    -- it is added and set up; the add is allowed because no other device has these ends
    have hfree : l.net.linksAt d.name = [] := by
      by_contra hne
      rw [← ne_eq, ← hasLink_eq_true, hthere] at hne
      exact absurd hne (by simp)
    have hadd := hl.addTunnel_allowed hd hfree
    have hadded := linksAt_exec (exec_eq_some.mpr ⟨hadd, rfl⟩)
    generalize hnet : (Cmd.addTunnel d.name hub.address d.remote).effect l.net = net at hadded
    have hset : (Cmd.setUp d.name).allowed net = true := by
      apply hasLink_eq_true.mpr
      rw [hadded d.name]
      simp [Cmd.onLinks]
    have hup := linksAt_exec (exec_eq_some.mpr ⟨hset, rfl⟩)
    have hrun : Finishes Task.perform [.ip false (.addTunnel d.name hub.address d.remote), .ip false (.setUp d.name)]
        l { l with net := (Cmd.setUp d.name).effect net } := by
      have hfirst : Finishes Task.perform [.ip false (.addTunnel d.name hub.address d.remote)] l
          { l with net := net } := by
        rw [← hnet]
        exact finishes_cmd hadd
      exact hfirst.append (finishes_cmd hset)
    have hperform : Task.perform (.ensureLink d hub.address) false l =
        (l, some [.ip false (.addTunnel d.name hub.address d.remote), .ip false (.setUp d.name)]) := by
      simp [Task.perform, hthere]
    refine ⟨_, .cons hperform hrun, ?_, ?_, fun dev hdev => ?_⟩
    · rw [← hnet]
      rfl
    · apply isUp_eq_true.mpr
      rw [hup d.name, hadded d.name]
      simp [Cmd.onLinks, hfree]
    · rw [hup dev, hadded dev]
      simp [Cmd.onLinks, hdev.symm]

/-- The tasks for one device come through, as long as it is not there and down, and leave it ready. -/
theorem exists_device {d : ExitDevice} (hl : Joined hub l.net) (hd : FarEnd hub d.name hub.address d.remote)
    (hdown : ¬ l.net.Down d.name) :
    ∃ m, Finishes Task.perform (Applier.deviceTasks hub.address d) l m ∧ m.net.rules = l.net.rules ∧
      Ready hub.address m.net d.name ∧ ∀ dev ≠ d.name, m.net.linksAt dev = l.net.linksAt dev := by
  -- the device, its address, its route: each needs what the one before left
  obtain ⟨m₁, hensure, hrules, hup, hother⟩ := exists_ensureLink hl hd hdown
  obtain ⟨link, hlink, hlinkUp⟩ := isUp_eq_true.mp hup
  have haddr : (Cmd.replaceAddr d.name hub.address).allowed m₁.net = true :=
    hasLink_eq_true.mpr (List.ne_nil_of_mem hlink)
  have haddressed := linksAt_exec (exec_eq_some.mpr ⟨haddr, rfl⟩)
  generalize hnet : (Cmd.replaceAddr d.name hub.address).effect m₁.net = net at haddressed
  have hready : Ready hub.address net d.name := by
    unfold Ready
    rw [haddressed d.name]
    simp only [Cmd.onLinks, if_true]
    refine ⟨_, List.mem_map_of_mem hlink, hlinkUp, ?_⟩
    · show hub.address ∈ if _ then _ else _
      split
      · assumption
      · simp
  have hroute : (Cmd.replaceRoute ⟨d.table, everywhere, d.name⟩ : Cmd Nat Dev).allowed net = true := hready.isUp
  refine ⟨{ m₁ with net := (Cmd.replaceRoute ⟨d.table, everywhere, d.name⟩ : Cmd Nat Dev).effect net }, ?_, ?_, hready,
    fun dev hdev => ?_⟩
  · have hsecond : Finishes Task.perform [.ip false (.replaceAddr d.name hub.address)] m₁ { m₁ with net := net } := by
      rw [← hnet]
      exact finishes_cmd haddr
    exact hensure.append (hsecond.append (finishes_cmd hroute))
  · rw [← hrules, ← hnet]
    rfl
  · show net.linksAt dev = l.net.linksAt dev
    rw [haddressed dev, ← hother dev hdev]
    simp [Cmd.onLinks, hdev.symm]

/-- The tasks for one device speak of its own far end alone. -/
theorem deviceTasks_ends {d : ExitDevice} (hd : FarEnd hub d.name hub.address d.remote) :
    ∀ t ∈ Applier.deviceTasks hub.address d, t.Ends hub := by
  intro t ht
  simp only [Applier.deviceTasks, List.mem_cons, List.not_mem_nil, or_false] at ht
  rcases ht with rfl | rfl | rfl
  · refine ⟨fun d' near he => ?_, fun _ _ _ he => absurd he (by simp [Task.cmd])⟩
    obtain ⟨rfl, rfl⟩ := Task.ensureLink.inj he
    exact hd
  · simp [Task.Ends, Task.cmd]
  · simp [Task.Ends, Task.cmd]

/-- The tasks for all devices come through one after the other. -/
theorem exists_devices (hl : Joined hub l.net) (hdevs : ∀ d ∈ devs, FarEnd hub d.name hub.address d.remote)
    (hdown : ∀ d ∈ devs, ¬ l.net.Down d.name) :
    ∃ m, Finishes Task.perform (devs.flatMap (Applier.deviceTasks hub.address)) l m ∧ m.net.rules = l.net.rules ∧
      (∀ d ∈ devs, Ready hub.address m.net d.name) ∧
      ∀ dev, (∀ d ∈ devs, dev ≠ d.name) → m.net.linksAt dev = l.net.linksAt dev := by
  induction devs generalizing l with
  | nil => exact ⟨l, .nil, rfl, fun d hd => absurd hd List.not_mem_nil, fun _ _ => rfl⟩
  | cons d devs ih =>
    rw [List.forall_mem_cons] at hdevs hdown
    obtain ⟨m₁, hfirst, hrules₁, hready, hother₁⟩ := exists_device hl hdevs.1 hdown.1
    have hdown₁ : ∀ d' ∈ devs, ¬ m₁.net.Down d'.name := by
      intro d' hd'
      by_cases hname : d'.name = d.name
      · rw [hname]
        exact hready.not_down
      · have hstill := hdown.2 d' hd'
        rw [down_iff, ← hother₁ _ hname, ← down_iff] at hstill
        exact hstill
    obtain ⟨m, hrest, hrules, hreadyRest, hother⟩ :=
      ih (finishes_joined hfirst (deviceTasks_ends hdevs.1) hl) hdevs.2 hdown₁
    refine ⟨m, ?_, hrules.trans hrules₁, fun d' hd' => ?_, fun dev hdev => ?_⟩
    · rw [List.flatMap_cons]
      exact hfirst.append hrest
    · rcases List.mem_cons.mp hd' with rfl | hd'
      · -- the devices after it do not touch it, or make it ready again
        by_cases hagain : ∃ d'' ∈ devs, d'.name = d''.name
        · obtain ⟨d'', hd'', hname⟩ := hagain
          rw [hname]
          exact hreadyRest d'' hd''
        · unfold Ready
          rw [hother d'.name fun d'' hd'' he => hagain ⟨d'', hd'', he⟩]
          exact hready
      · exact hreadyRest d' hd'
    · rw [List.forall_mem_cons] at hdev
      rw [hother dev hdev.2, hother₁ dev hdev.1]

/-- Rules that are not there yet can all be added. -/
theorem exists_addRules {new : List (PolicyRouting.Rule Nat)} (hnew : new.Nodup)
    (hfree : ∀ r ∈ new, r ∉ l.net.rules) :
    ∃ m, Finishes Task.perform (new.map fun r => .ip false (.addRule r)) l m := by
  induction new generalizing l with
  | nil => exact ⟨l, .nil⟩
  | cons r new ih =>
    rw [List.nodup_cons] at hnew
    rw [List.forall_mem_cons] at hfree
    have hadd : (Cmd.addRule r : Cmd Nat Dev).allowed l.net = true := decide_eq_true hfree.1
    obtain ⟨m, hrest⟩ := @ih { l with net := (Cmd.addRule r).effect l.net } hnew.2 (by
      intro r' hr' hmem
      rcases (List.mem_orderedInsert _).mp hmem with rfl | hmem
      · exact hnew.1 hr'
      · exact hfree.2 r' hr' hmem)
    exact ⟨m, (finishes_cmd hadd).append hrest⟩

/-! ## Recovery -/

/-- A mesh and routes without duplicates, the nodes of the routes at IPv4 addresses of the pool. -/
structure ExitInput (pool : Prefix) (mesh : List Prefix) (routes : List ExitRoute) : Prop where
  meshOnce : mesh.Nodup
  routesOnce : routes.Nodup
  nodes : ∀ r ∈ routes, ∃ y, r.node = .v4 y ∧ pool.contains (.v4 y) = true

/-- The node of a route has an address of the pool. -/
theorem ExitInput.node_mem (hin : ExitInput hub.poolCIDR mesh routes) {r : ExitRoute} (hr : r ∈ routes) :
    hub.poolCIDR.contains r.node = true := by
  obtain ⟨y, hy, hpool⟩ := hin.nodes r hr
  rwa [hy]

/-- With an index for each node there is a plan. -/
theorem exitPlan_isSome {routes : List ExitRoute} (h : ∀ r ∈ routes, (exitIndex r.node).isSome = true) :
    ∃ devs rules, exitPlan routes = some (devs, rules) := by
  unfold exitPlan
  rw [if_pos (List.all_eq_true.mpr h)]
  exact ⟨_, _, rfl⟩

/-- Every node of the pool has an index, so there is a plan. -/
theorem ExitInput.plan (hin : ExitInput hub.poolCIDR mesh routes) :
    ∃ devs rules, exitPlan routes = some (devs, rules) := by
  apply exitPlan_isSome
  intro r hr
  obtain ⟨y, hy, -⟩ := hin.nodes r hr
  rw [hy]
  rfl

/-- Two nodes with one index are one node. -/
theorem ExitInput.node_eq (hin : ExitInput hub.poolCIDR mesh routes) (hbits : 16 ≤ hub.poolCIDR.bits)
    {r : ExitRoute} (hr : r ∈ routes) {a : Addr} (ha : hub.poolCIDR.contains a = true)
    (h : exitIndex a = exitIndex r.node) : a = r.node := by
  obtain ⟨y, -, hpool⟩ := hin.nodes r hr
  exact exitIndex_inj hbits hpool ha (hin.node_mem hr) h

/-- The planned rules are one for each route. -/
theorem exitPlan_rules (h : exitPlan routes = some (devs, rules)) :
    List.Perm rules (routes.filterMap exitRule) := by
  unfold exitPlan at h
  split at h
  · obtain ⟨-, rfl⟩ := Prod.mk.inj (Option.some.inj h)
    exact List.perm_insertionSort _ _
  · exact absurd h (by simp)

/-- The plan has no rule twice. -/
theorem ExitInput.rules_nodup (hin : ExitInput hub.poolCIDR mesh routes) (hbits : 16 ≤ hub.poolCIDR.bits)
    (h : exitPlan routes = some (devs, rules)) : rules.Nodup := by
  apply (exitPlan_rules h).nodup_iff.mpr
  -- the table tells the nodes apart
  have hinj : ∀ r ∈ routes, ∀ r' ∈ routes, ∀ x, exitRule r = some x → exitRule r' = some x → r = r' := by
    intro r hr r' hr' x hx hx'
    obtain ⟨i, hi, rfl⟩ := exitRule_eq hx
    obtain ⟨j, hj, he⟩ := exitRule_eq hx'
    obtain ⟨hclient, htable⟩ := ExitRule.mk.inj he
    have hnode : r.node = r'.node := by
      apply hin.node_eq hbits hr' (hin.node_mem hr)
      rw [hi, hj, Nat.add_left_cancel htable]
    obtain ⟨c, n⟩ := r
    obtain ⟨c', n'⟩ := r'
    obtain rfl : c = c' := hclient
    obtain rfl : n = n' := hnode
    rfl
  have hne : routes.Pairwise fun r r' => r ∈ routes ∧ r' ∈ routes ∧ r ≠ r' :=
    hin.routesOnce.imp_of_mem fun hr hr' hne => ⟨hr, hr', hne⟩
  apply hne.filterMap
  rintro r r' ⟨hr, hr', hne⟩ x hx y hy rfl
  exact hne (hinj r hr r' hr' x hx hy)

theorem sorted_perform {fault : Bool} (hs : l.net.Sorted) : (t.perform fault l).1.net.Sorted := by
  have hperformed := performed t fault l
  generalize (t.perform fault l).1 = l' at hperformed ⊢
  cases hperformed with
  | command _ hc => exact exec_sorted hc hs
  | _ => exact hs

/-- The rules stay in the order of their preferences. -/
theorem finishes_sorted {ts : List Task} (h : Finishes Task.perform ts l l') (hs : l.net.Sorted) :
    l'.net.Sorted := by
  apply h.keeps (G := fun _ => True) (P := fun m => m.net.Sorted) _ (fun _ _ => trivial) hs
  intro t m m' new _ hm hperform
  have hsorted : (t.perform false m).1.net.Sorted := sorted_perform hm
  rw [hperform] at hsorted
  exact ⟨hsorted, fun _ _ => trivial⟩

/-- The rules are gone, and with them the devices that nobody wants. -/
theorem exists_cleared (hs : l.net.Sorted) (want : List Dev) :
    ∃ m, Finishes Task.perform [.flushRules exitMeshPref, .flushRules exitPref,
        .ip true (.delRoute ⟨51, everywhere, .awg⟩), .reapDevices want] l m ∧
      m.net.rulesAt exitMeshPref = [] ∧ m.net.rulesAt exitPref = [] ∧
      ∀ dev, m.net.linksAt dev = if dev.isExit = true ∧ dev ∉ want then [] else l.net.linksAt dev := by
  obtain ⟨m₁, hrun₁, hlinks₁⟩ := exists_flush exitMeshPref hs
  obtain ⟨hs₁, hmesh₁, -⟩ := finishes_flush hrun₁ hs
  obtain ⟨m₂, hrun₂, hlinks₂⟩ := exists_flush exitPref hs₁
  obtain ⟨-, hsource₂, hother₂⟩ := finishes_flush hrun₂ hs₁
  obtain ⟨m₃, hrun₃, hroute⟩ := exists_tolerated (l := m₂) (.delRoute ⟨51, everywhere, .awg⟩)
  have hsame₃ : m₃.net.rules = m₂.net.rules ∧ m₃.net.links = m₂.net.links := by
    rcases hroute with ⟨-, rfl⟩ | ⟨net, hnet, rfl⟩
    · exact ⟨rfl, rfl⟩
    · obtain ⟨-, rfl⟩ := exec_eq_some.mp hnet
      exact ⟨rfl, rfl⟩
  obtain ⟨m, hrun, hrules, hlinks⟩ := exists_reap (l := m₃) want
  have hat : ∀ q, m.net.rulesAt q = m₂.net.rulesAt q := by
    intro q
    unfold Kernel.rulesAt
    rw [hrules, hsame₃.1]
  refine ⟨m, hrun₁.append (hrun₂.append (hrun₃.append hrun)), ?_, ?_, fun dev => ?_⟩
  · rw [hat, hother₂ exitMeshPref (by decide), hmesh₁]
  · rw [hat, hsource₂]
  · rw [hlinks dev]
    unfold Kernel.linksAt
    rw [hsame₃.2, hlinks₂, hlinks₁]

/-- Exactly the exit routing of the arguments. -/
structure Converged (hubAddr : Addr) (mesh : List Prefix) (routes : List ExitRoute) (net : Kernel Nat Dev) :
    Prop where
  meshRules : net.rulesAt exitMeshPref = mesh.map Applier.meshRule
  sourceRules : (net.rulesAt exitPref).Perm ((routes.filterMap exitRule).map Applier.sourceRule)
  devices : ((net.links.map Link.dev).filter Dev.isExit).Perm
    ((routes.map ExitRoute.node).dedup.filterMap fun a => (exitIndex a).map Dev.exit)
  exits : ∀ r ∈ routes, ∃ i, exitIndex r.node = some i ∧ exitDefault i ∈ net.routes ∧
    ∃ link ∈ net.links, link.dev = .exit i ∧ link.up = true ∧ hubAddr ∈ link.addrs ∧
      link.tunnel = some (hubAddr, r.node)

/-- An undisturbed run returns and leaves the exit routing of its arguments. -/
def Recovers (hubAddr : Addr) (mesh : List Prefix) (routes : List ExitRoute) (l : Live) : Prop :=
  ∃ l', Finishes Task.perform (Applier.ensureExitRoutes hubAddr mesh routes) l l' ∧
    Converged hubAddr mesh routes l'.net

/-- The plan has no device twice. -/
theorem exits_nodup (hbits : 16 ≤ hub.poolCIDR.bits) (hin : ExitInput hub.poolCIDR mesh routes) :
    ((routes.map ExitRoute.node).dedup.filterMap fun a => (exitIndex a).map Dev.exit).Nodup := by
  have hne : (routes.map ExitRoute.node).dedup.Pairwise fun a b =>
      a ∈ routes.map ExitRoute.node ∧ b ∈ routes.map ExitRoute.node ∧ a ≠ b :=
    (List.nodup_dedup _).imp_of_mem fun ha hb hne => ⟨List.mem_dedup.mp ha, List.mem_dedup.mp hb, hne⟩
  apply hne.filterMap
  rintro a b ⟨ha, hb, hne⟩ dev hdev dev' hdev' rfl
  obtain ⟨r, hr, rfl⟩ := List.mem_map.mp ha
  obtain ⟨r', hr', rfl⟩ := List.mem_map.mp hb
  obtain ⟨i, hi, rfl⟩ := Option.map_eq_some_iff.mp hdev
  obtain ⟨j, hj, he⟩ := Option.map_eq_some_iff.mp hdev'
  apply hne
  apply hin.node_eq hbits hr' (hin.node_mem hr)
  rw [hi, hj, Dev.exit.inj he]

theorem newRules_nodup (hmesh : mesh.Nodup) (hrules : rules.Nodup) :
    (mesh.map Applier.meshRule ++ rules.map Applier.sourceRule).Nodup := by
  apply List.Nodup.append
  · exact hmesh.map fun p q he => by simpa [Applier.meshRule] using he
  · refine hrules.map fun x y he => ?_
    obtain ⟨c, t⟩ := x
    obtain ⟨c', t'⟩ := y
    simpa [Applier.sourceRule, Prefix.host] using he
  · intro r hr hr'
    obtain ⟨p, -, rfl⟩ := List.mem_map.mp hr
    obtain ⟨x, -, he⟩ := List.mem_map.mp hr'
    exact absurd (congrArg PolicyRouting.Rule.pref he)
      (by simp [Applier.meshRule, Applier.sourceRule, exitMeshPref, exitPref])

/-- The devices at the end, from what was kept and what was made. -/
theorem devices_perm (hl : Joined hub net) (hbits : 16 ≤ hub.poolCIDR.bits)
    (hin : ExitInput hub.poolCIDR mesh routes)
    (hthere : ∀ r ∈ routes, ∀ i, exitIndex r.node = some i → net.linksAt (.exit i) ≠ [])
    (honly : ∀ dev, dev.isExit = true → (∀ r ∈ routes, ∀ i, exitIndex r.node = some i → dev ≠ .exit i) →
      net.linksAt dev = []) :
    ((net.links.map Link.dev).filter Dev.isExit).Perm
      ((routes.map ExitRoute.node).dedup.filterMap fun a => (exitIndex a).map Dev.exit) := by
  apply (List.perm_ext_iff_of_nodup hl.once (exits_nodup hbits hin)).mpr
  intro dev
  rw [List.mem_filter, List.mem_filterMap]
  constructor
  · rintro ⟨hdev, hexit⟩
    obtain ⟨link, hlink, rfl⟩ := List.mem_map.mp hdev
    by_contra hnone
    have hempty := honly link.dev hexit (by
      intro r hr i hi he
      exact hnone ⟨r.node, List.mem_dedup.mpr (List.mem_map_of_mem hr), by rw [hi, he]; rfl⟩)
    have hmem := mem_linksAt.mpr ⟨hlink, rfl⟩
    rw [hempty] at hmem
    exact absurd hmem List.not_mem_nil
  · rintro ⟨a, ha, hdev⟩
    obtain ⟨r, hr, rfl⟩ := List.mem_map.mp (List.mem_dedup.mp ha)
    obtain ⟨i, hi, rfl⟩ := Option.map_eq_some_iff.mp hdev
    obtain ⟨link, hlink⟩ := List.exists_mem_of_ne_nil _ (hthere r hr i hi)
    obtain ⟨hlink, hlinkDev⟩ := mem_linksAt.mp hlink
    exact ⟨List.mem_map.mpr ⟨link, hlink, hlinkDev⟩, rfl⟩

/-- **The whole program.** It runs to its end where none of its devices is down and none of its rules comes
    twice; its devices are ready then, and they are the only exit devices. -/
theorem exists_ensureExitRoutes (hs : l.net.Sorted) (hl : Joined hub l.net)
    (hnodes : ∀ r ∈ routes, hub.poolCIDR.contains r.node = true) (hplan : exitPlan routes = some (devs, rules))
    (hup : ∀ d ∈ devs, ¬ l.net.Down d.name)
    (hnew : (mesh.map Applier.meshRule ++ rules.map Applier.sourceRule).Nodup) :
    ∃ m, Finishes Task.perform (Applier.ensureExitRoutes hub.address mesh routes) l m ∧
      (∀ d ∈ devs, Ready hub.address m.net d.name) ∧
      ∀ dev, (∀ d ∈ devs, dev ≠ d.name) →
        m.net.linksAt dev = if dev.isExit = true then [] else l.net.linksAt dev := by
  have hends : ∀ t ∈ Applier.ensureExitRoutes hub.address mesh routes, t.Ends hub := ensureExitRoutes_ends hnodes
  obtain ⟨m₁, hrun₁, hmesh₁, hsource₁, hlinks₁⟩ := exists_cleared hs (devs.map ExitDevice.name)
  have hprogram : Applier.ensureExitRoutes hub.address mesh routes =
      [.flushRules exitMeshPref, .flushRules exitPref, .ip true (.delRoute ⟨51, everywhere, .awg⟩),
        .reapDevices (devs.map ExitDevice.name)] ++
      (devs.flatMap (Applier.deviceTasks hub.address) ++
        (mesh.map Applier.meshRule ++ rules.map Applier.sourceRule).map fun r => .ip false (.addRule r)) := by
    rw [ensureExitRoutes_eq hplan]
    simp [afterFlush]
  rw [hprogram] at hends ⊢
  have hl₁ : Joined hub m₁.net :=
    finishes_joined hrun₁ (fun t ht => hends t (List.mem_append_left _ ht)) hl
  have hfar : ∀ d ∈ devs, FarEnd hub d.name hub.address d.remote := by
    intro d hd
    obtain ⟨r, hr, hnode⟩ := ((mem_exitPlan hplan).1 d).mp hd
    obtain ⟨i, hi, rfl⟩ := exitDevice_eq hnode
    exact ⟨rfl, hnodes r hr, i, rfl, hi⟩
  have hup₁ : ∀ d ∈ devs, ¬ m₁.net.Down d.name := by
    intro d hd
    have hkept := hlinks₁ d.name
    rw [if_neg (fun hgone => hgone.2 (List.mem_map_of_mem hd))] at hkept
    rw [down_iff, hkept, ← down_iff]
    exact hup d hd
  obtain ⟨m₂, hrun₂, hrules₂, hready₂, hlinks₂⟩ := exists_devices hl₁ hfar hup₁
  have hfree : ∀ q, m₁.net.rulesAt q = [] → ∀ r ∈ m₂.net.rules, r.pref ≠ q := by
    intro q hnone r hr hpref
    rw [hrules₂] at hr
    have hmem := mem_rulesAt.mpr ⟨hr, hpref⟩
    rw [hnone] at hmem
    exact absurd hmem List.not_mem_nil
  obtain ⟨m₃, hrun₃⟩ := exists_addRules (l := m₂) hnew (by
    intro r hr hmem
    rcases List.mem_append.mp hr with hr | hr
    · obtain ⟨p, -, rfl⟩ := List.mem_map.mp hr
      exact hfree _ hmesh₁ _ hmem rfl
    · obtain ⟨x, -, rfl⟩ := List.mem_map.mp hr
      exact hfree _ hsource₁ _ hmem rfl)
  -- the rules are added beside the devices
  have hlinks₃ : ∀ dev, m₃.net.linksAt dev = m₂.net.linksAt dev := by
    obtain ⟨-, -, -, hlinks⟩ := finishes_addRules hrun₃ (finishes_sorted hrun₂ (finishes_sorted hrun₁ hs))
    intro dev
    unfold Kernel.linksAt
    rw [hlinks]
  refine ⟨m₃, hrun₁.append (hrun₂.append hrun₃), fun d hd => ?_, fun dev hnot => ?_⟩
  · unfold Ready
    rw [hlinks₃]
    exact hready₂ d hd
  · have hunwanted : dev ∉ devs.map ExitDevice.name := by
      intro hwant
      obtain ⟨d, hd, rfl⟩ := List.mem_map.mp hwant
      exact hnot d hd rfl
    rw [hlinks₃, hlinks₂ dev hnot, hlinks₁]
    simp [hunwanted]

/-- **Where no device is down, one run is enough.** -/
theorem recovers_of_up (hs : l.net.Sorted) (hl : Joined hub l.net) (hbits : 16 ≤ hub.poolCIDR.bits)
    (hin : ExitInput hub.poolCIDR mesh routes)
    (hup : ∀ r ∈ routes, ∀ i, exitIndex r.node = some i → ¬ l.net.Down (.exit i)) :
    Recovers hub.address mesh routes l := by
  obtain ⟨devs, rules, hplan⟩ := hin.plan
  have hnodes : ∀ r ∈ routes, hub.poolCIDR.contains r.node = true := fun r hr => hin.node_mem hr
  have hdevs : ∀ d ∈ devs, ∃ r ∈ routes, ∃ i, exitIndex r.node = some i ∧ d = ⟨.exit i, r.node, exitTableBase + i⟩ := by
    intro d hd
    obtain ⟨r, hr, hnode⟩ := ((mem_exitPlan hplan).1 d).mp hd
    obtain ⟨i, hi, rfl⟩ := exitDevice_eq hnode
    exact ⟨r, hr, i, hi, rfl⟩
  have hupDevs : ∀ d ∈ devs, ¬ l.net.Down d.name := by
    intro d hd
    obtain ⟨r, hr, i, hi, rfl⟩ := hdevs d hd
    exact hup r hr i hi
  have hnew := newRules_nodup hin.meshOnce (hin.rules_nodup hbits hplan)
  -- the calls come through, and what a finished run leaves is the plan
  obtain ⟨m, hrun, hready, honly⟩ := exists_ensureExitRoutes hs hl hnodes hplan hupDevs hnew
  have hjoined : Joined hub m.net := finishes_joined hrun (ensureExitRoutes_ends hnodes) hl
  obtain ⟨devs', rules', hplan', hhas⟩ := finishes_ensureExitRoutes hrun hs
  obtain ⟨rfl, rfl⟩ := Prod.mk.inj (Option.some.inj (hplan.symm.trans hplan'))
  refine ⟨m, hrun, hhas.meshRules, ?_, ?_, ?_⟩
  · rw [hhas.sourceRules]
    exact (exitPlan_rules hplan).map _
  · -- the devices are the wanted ones: each is there, and no other
    apply devices_perm hjoined hbits hin
    · intro r hr i hi
      obtain ⟨j, hj, hdev, -⟩ := planned hplan hr
      obtain rfl := Option.some.inj (hj.symm.trans hi)
      obtain ⟨link, hlink, -⟩ := hready _ hdev
      exact List.ne_nil_of_mem hlink
    · intro dev hexit hnot
      rw [honly dev, if_pos hexit]
      intro d hd
      obtain ⟨r, hr, i, hi, rfl⟩ := hdevs d hd
      exact hnot r hr i hi
  · intro r hr
    obtain ⟨i, hi, hdev, -⟩ := planned hplan hr
    obtain ⟨link, hlink, hlinkUp, haddr⟩ := hready _ hdev
    obtain ⟨hlink, hlinkDev⟩ := mem_linksAt.mp hlink
    refine ⟨i, hi, (hhas.exits i r.node hdev).1, link, hlink, hlinkDev, hlinkUp, haddr, ?_⟩
    obtain ⟨near, far, htunnel, rfl, hfar, j, hj, hindex⟩ := hjoined.tunnels link hlink (by rw [hlinkDev]; rfl)
    obtain rfl := Dev.exit.inj (hlinkDev.symm.trans hj)
    rw [htunnel, hin.node_eq hbits hr hfar (hindex.trans hi.symm)]

/-! ### Left down -/

/-- The task does not set the device up, and does not delete it. -/
def Task.leavesDown (dev : Dev) (t : Task) : Prop :=
  (∀ c, t.cmd = some c → c ≠ .setUp dev ∧ c ≠ .delLink dev) ∧ ∀ want, t = .reapDevices want → dev ∈ want

/-- A device that is down stays down through tasks that do not set it up. -/
theorem finishes_down {ts : List Task} {i : Nat} (h : Finishes Task.perform ts l l')
    (hts : ∀ t ∈ ts, t.leavesDown (.exit i)) (hdown : l.net.Down (.exit i)) : l'.net.Down (.exit i) := by
  apply h.keeps (G := Task.leavesDown (.exit i)) (P := fun m => m.net.Down (.exit i)) _ hts hdown
  intro t m m' new ht hm hperform
  have hperformed := performed t false m
  rw [hperform] at hperformed
  refine ⟨?_, fun u hu => ?_⟩
  · cases hperformed with
    | up _ =>
      rw [down_iff] at hm ⊢
      simpa [awgUp, Kernel.linksAt] using hm
    | command hcmd hc => exact keeps_down hc hm (ht.1 _ hcmd).1 (ht.1 _ hcmd).2
    | _ => exact hm
  · have hunfolds := unfolds (by rw [hperform]) hu
    cases hunfolds with
    | flush pref => exact ht
    | @reap want dev hdev hwant =>
      refine ⟨fun c hc => ?_, fun _ he => absurd he (by simp)⟩
      obtain rfl := Option.some.inj hc
      refine ⟨by simp, fun he => hwant ?_⟩
      obtain rfl := Cmd.delLink.inj he
      exact ht.2 want rfl
    | setUp d a =>
      refine ⟨fun c hc => ?_, fun _ he => absurd he (by simp)⟩
      obtain rfl := Option.some.inj hc
      refine ⟨fun he => ?_, by simp⟩
      -- it would not unfold if the device were there
      have hname := Cmd.setUp.inj he
      rw [← hname] at hm
      obtain ⟨-, hnew⟩ := Prod.mk.inj hperform
      simp only [hm.1, Bool.not_false, Bool.and_self, if_true, Option.some.injEq] at hnew
      rw [← hnew] at hu
      exact absurd hu List.not_mem_nil
    | _ => simp [Task.leavesDown, Task.cmd]

/-- **Where a device is down, every run fails.** It is taken for ready, and no route can go through it. -/
theorem not_finishes_of_down {hubAddr : Addr} {r : ExitRoute} {i : Nat} (hr : r ∈ routes)
    (hi : exitIndex r.node = some i) (hdown : l.net.Down (.exit i)) :
    ¬ Finishes Task.perform (Applier.ensureExitRoutes hubAddr mesh routes) l l' := by
  intro h
  -- no task sets the device up, and it is not reaped, since a route wants it
  have hleaves : ∀ t ∈ Applier.ensureExitRoutes hubAddr mesh routes, t.leavesDown (.exit i) := by
    intro t ht
    have htask := exitTask ht
    cases htask with
    | reap hwant =>
      refine ⟨fun c hc => absurd hc (by simp [Task.cmd]), fun want he => ?_⟩
      obtain rfl := Task.reapDevices.inj he
      exact hwant r hr i hi
    | _ => simp [Task.leavesDown, Task.cmd]
  -- but its route needs it up
  have hmem : Task.ip false (.replaceRoute (exitDefault i)) ∈ Applier.ensureExitRoutes hubAddr mesh routes := by
    cases hplan : exitPlan routes with
    | none =>
      unfold Applier.ensureExitRoutes at h
      rw [hplan] at h
      obtain ⟨m, new, hperform, -⟩ := Finishes.cons_iff.mp h
      exact absurd (Prod.mk.inj hperform).2 (by simp)
    | some plan =>
      obtain ⟨devs, rules⟩ := plan
      obtain ⟨j, hj, hdev, -⟩ := planned hplan hr
      obtain rfl := Option.some.inj (hj.symm.trans hi)
      unfold Applier.ensureExitRoutes
      rw [hplan]
      apply List.mem_append_left
      apply List.mem_append_left
      apply List.mem_append_right
      refine List.mem_flatMap.mpr ⟨_, hdev, ?_⟩
      simp [Applier.deviceTasks, exitDefault]
  obtain ⟨before, after, hsplit⟩ := List.append_of_mem hmem
  rw [hsplit] at h hleaves
  obtain ⟨m, hbefore, hrest⟩ := finishes_append.mp h
  have hstill := finishes_down hbefore (fun t ht => hleaves t (List.mem_append_left _ ht)) hdown
  obtain ⟨net, hnet, -⟩ := finishes_ip hrest
  have hup : m.net.isUp (.exit i) = true := (exec_eq_some.mp hnet).1
  rw [hstill.2] at hup
  exact absurd hup (by simp)

/-! ### Histories -/

/-- No exit device yet, and no tunnel that starts at the hub. -/
structure Bare (hubAddr : Addr) (net : Kernel Nat Dev) : Prop where
  sorted : net.Sorted
  links : ∀ link ∈ net.links, link.dev.isExit = false ∧ ∀ far, link.tunnel ≠ some (hubAddr, far)

/-- A command of the run under way, which may fail at any time, or, when none is, the start of one. -/
inductive ExitMoves (hub : Hub) : List Task × Live → List Task × Live → Prop
  | start {l : Live} {mesh : List Prefix} {routes : List ExitRoute} (hin : ExitInput hub.poolCIDR mesh routes) :
      ExitMoves hub ([], l) (Applier.ensureExitRoutes hub.address mesh routes, l)
  | command {c c' : List Task × Live} (h : Tasks.Step Task.perform c c') : ExitMoves hub c c'

/-- Runs of `EnsureExitRoutes` one after the other, each cut short anywhere. -/
def ExitRuns (hub : Hub) : List Task × Live → List Task × Live → Prop := Relation.ReflTransGen (ExitMoves hub)

/-- If the next command is `ip link set up`, it does not fail. -/
def SetsUp (c c' : List Task × Live) : Prop :=
  ∀ dev ts, c.1 = .ip false (.setUp dev) :: ts → c'.2.net.isUp dev = true

theorem Bare.joined (h : Bare hub.address net) : Joined hub net where
  once := by
    have hnone : (net.links.map Link.dev).filter Dev.isExit = [] := by
      apply List.filter_eq_nil_iff.mpr
      intro dev hdev
      obtain ⟨link, hlink, rfl⟩ := List.mem_map.mp hdev
      rw [(h.links link hlink).1]
      exact Bool.false_ne_true
    rw [hnone]
    exact List.nodup_nil
  ours link hlink far htunnel := absurd htunnel ((h.links link hlink).2 far)
  tunnels link hlink hexit := absurd ((h.links link hlink).1.symm.trans hexit) (by simp)

/-- After runs that were cut short anywhere the devices are still joined and the rules in order. -/
theorem exitRuns_joined {c : List Task × Live} (h : ExitRuns hub ([], l) c) (hbare : Bare hub.address l.net) :
    (∀ t ∈ c.1, t.Ends hub) ∧ c.2.net.Sorted ∧ Joined hub c.2.net := by
  induction h with
  | refl => exact ⟨fun t ht => absurd ht List.not_mem_nil, hbare.sorted, hbare.joined⟩
  | tail _ hmove ih =>
    cases hmove with
    | start hin => exact ⟨ensureExitRoutes_ends fun r hr => hin.node_mem hr, ih.2⟩
    | command hstep =>
      exact hstep.keeps (P := fun m => m.net.Sorted ∧ Joined hub m.net)
        (fun t fault m ht hm => ⟨⟨sorted_perform hm.1, hm.2.perform ht⟩, (Tunnels.perform ht hm.2.tunnels).2⟩)
        ih.1 ih.2

/-- The task adds no tunnel next. -/
def Task.plain (t : Task) : Prop := ∀ dev near far, t.cmd ≠ some (.addTunnel dev near far)

/-- An exit device is down only between being added and being set up. -/
inductive Orderly : List Task × Live → Prop
  | settled {ts : List Task} {l : Live} (hts : ∀ t ∈ ts, t.plain) (hl : ∀ i, ¬ l.net.Down (.exit i)) :
      Orderly (ts, l)
  | adding {ts : List Task} {l : Live} {dev : Dev} {near far : Addr} (hts : ∀ t ∈ ts, t.plain)
      (hl : ∀ i, ¬ l.net.Down (.exit i)) :
      Orderly (.ip false (.addTunnel dev near far) :: .ip false (.setUp dev) :: ts, l)
  | added {ts : List Task} {l : Live} {dev : Dev} (hts : ∀ t ∈ ts, t.plain)
      (hl : ∀ i, l.net.Down (.exit i) → .exit i = dev) : Orderly (.ip false (.setUp dev) :: ts, l)

/-- Only adding a tunnel makes a device that is down. -/
theorem plain_perform (fault : Bool) {i : Nat} (ht : t.plain) (hdown : (t.perform fault l).1.net.Down (.exit i)) :
    l.net.Down (.exit i) := by
  have hperformed := performed t fault l
  generalize (t.perform fault l).1 = l' at hperformed hdown
  cases hperformed with
  | up _ =>
    rw [down_iff] at hdown ⊢
    simpa [awgUp, Kernel.linksAt] using hdown
  | command hcmd hc =>
    rcases down_exec hc hdown with hstill | ⟨near, far, rfl⟩
    · exact hstill
    · exact absurd hcmd (ht _ near far)
  | _ => exact hdown

theorem plain_unfolds {u : Task} (h : Unfolds l t u) (ht : t.plain) (hlink : ∀ d a, t ≠ .ensureLink d a) :
    u.plain := by
  cases h with
  | flush pref => exact ht
  | addTunnel d a => exact absurd rfl (hlink d a)
  | _ => simp [Task.plain, Task.cmd]

/-- A step in which `ip link set up` does not fail keeps a run orderly. -/
theorem Orderly.step {c c' : List Task × Live} (h : Orderly c) (hstep : Tasks.Step Task.perform c c')
    (hup : SetsUp c c') : Orderly c' := by
  cases h with
  | @settled ts l hts hl =>
    cases hstep with
    | @goOn t ts new _ l' fault hperform =>
      rw [List.forall_mem_cons] at hts
      have hl' : ∀ i, ¬ l'.net.Down (.exit i) := by
        intro i hdown
        apply hl i
        apply plain_perform fault hts.1
        rwa [hperform]
      by_cases hlink : ∃ d a, t = .ensureLink d a
      · obtain ⟨d, a, rfl⟩ := hlink
        obtain ⟨-, hnew⟩ := Prod.mk.inj hperform
        split at hnew
        · obtain rfl := Option.some.inj hnew
          exact .settled hts.2 hl'
        · obtain rfl := Option.some.inj hnew
          exact .adding hts.2 hl'
      · refine .settled (fun u hu => ?_) hl'
        rcases List.mem_append.mp hu with hu | hu
        · have hunfolds := unfolds (by rw [hperform]) hu
          exact plain_unfolds hunfolds hts.1 fun d a he => hlink ⟨d, a, he⟩
        · exact hts.2 u hu
    | @stop t ts _ l' fault hperform =>
      rw [List.forall_mem_cons] at hts
      refine .settled (fun u hu => absurd hu List.not_mem_nil) fun i hdown => hl i ?_
      apply plain_perform fault hts.1
      rwa [hperform]
  | @adding ts l dev near far hts hl =>
    cases hstep with
    | goOn hperform =>
      simp only [Task.perform] at hperform
      split at hperform
      · rename_i net hnet
        obtain ⟨rfl, hnew⟩ := Prod.mk.inj hperform
        obtain rfl := Option.some.inj hnew
        have hexec := (ite_eq_iff.mp hnet).resolve_left fun he => absurd he.2 (by simp)
        refine .added hts fun i hdown => ?_
        rcases down_exec hexec.2 hdown with hold | ⟨near', far', he⟩
        · exact absurd hold (hl i)
        · exact (Cmd.addTunnel.inj he).1.symm
      · exact absurd (Prod.mk.inj hperform).2 (by simp)
    | stop hperform =>
      simp only [Task.perform] at hperform
      split at hperform
      · exact absurd (Prod.mk.inj hperform).2 (by simp)
      · obtain ⟨rfl, -⟩ := Prod.mk.inj hperform
        exact .settled (fun u hu => absurd hu List.not_mem_nil) hl
  | @added ts l dev hts hl =>
    -- the device is up now, and no other was down
    have hgone : ∀ {l' : Live}, l'.net.isUp dev = true →
        (∀ i, l'.net.Down (.exit i) → l.net.Down (.exit i)) → ∀ i, ¬ l'.net.Down (.exit i) := by
      intro l' hisUp hback i hdown
      have hdev := hl i (hback i hdown)
      rw [← hdev, hdown.2] at hisUp
      exact absurd hisUp (by simp)
    cases hstep with
    | @goOn _ _ new _ l' fault hperform =>
      have hback : ∀ i, l'.net.Down (.exit i) → l.net.Down (.exit i) := by
        intro i hdown
        apply plain_perform (t := .ip false (.setUp dev)) fault
        · simp [Task.plain, Task.cmd]
        · rwa [hperform]
      refine .settled (fun u hu => ?_) (hgone (hup dev ts rfl) hback)
      rcases List.mem_append.mp hu with hu | hu
      · have hunfolds := unfolds (by rw [hperform]) hu
        cases hunfolds
      · exact hts u hu
    | @stop _ _ _ l' fault hperform =>
      refine .settled (fun u hu => absurd hu List.not_mem_nil) (hgone (hup dev ts rfl) fun i hdown => ?_)
      apply plain_perform (t := .ip false (.setUp dev)) fault
      · simp [Task.plain, Task.cmd]
      · rwa [hperform]

/-- So no run without such a failure leaves a device there and down. -/
theorem exitRuns_orderly {c : List Task × Live}
    (h : Relation.ReflTransGen (fun c c' => ExitMoves hub c c' ∧ SetsUp c c') ([], l) c)
    (hbare : Bare hub.address l.net) : Orderly c := by
  induction h with
  | refl =>
    refine .settled (fun t ht => absurd ht List.not_mem_nil) fun i hdown => ?_
    obtain ⟨link, hlink⟩ := List.exists_mem_of_ne_nil _ (down_iff.mp hdown).1
    obtain ⟨hlink, hdev⟩ := mem_linksAt.mp hlink
    have hexit := (hbare.links link hlink).1
    rw [hdev] at hexit
    exact absurd hexit (by simp [Dev.isExit])
  | tail _ hmove ih =>
    obtain ⟨hmove, hup⟩ := hmove
    cases hmove with
    | start hin =>
      cases ih with
      | settled _ hl =>
        refine .settled (fun t ht => ?_) hl
        have htask := exitTask ht
        cases htask <;> simp [Task.plain, Task.cmd]
    | command hstep => exact ih.step hstep hup

/-- **Recovery.** Start on a host with no exit device of ours, and let runs of `EnsureExitRoutes` follow each
    other, on any arguments, each cut short by the failure of any command. One further run, undisturbed,
    returns and leaves exactly the exit routing of its arguments if and only if none of its devices was left
    down. No device is, when `ip link set up` never fails right after `ip link add`. -/
theorem exit_routing_recovers {l₀ : Live} (hbits : 16 ≤ hub.poolCIDR.bits) (hbare : Bare hub.address l₀.net)
    (hruns : ExitRuns hub ([], l₀) ([], l)) (hin : ExitInput hub.poolCIDR mesh routes) :
    (Recovers hub.address mesh routes l ↔
      ∀ r ∈ routes, ∀ i, exitIndex r.node = some i → ¬ l.net.Down (.exit i)) ∧
    (Relation.ReflTransGen (fun c c' => ExitMoves hub c c' ∧ SetsUp c c') ([], l₀) ([], l) →
      Recovers hub.address mesh routes l) := by
  obtain ⟨-, hs, hl⟩ := exitRuns_joined hruns hbare
  refine ⟨⟨?_, recovers_of_up hs hl hbits hin⟩, fun hsetsUp => ?_⟩
  · rintro ⟨l', hrun, -⟩ r hr i hi hdown
    exact not_finishes_of_down hr hi hdown hrun
  · apply recovers_of_up hs hl hbits hin
    intro r _ i _
    have horderly := exitRuns_orderly hsetsUp hbare
    cases horderly with
    | settled _ hup => exact hup i

/-- The phone's exit through the home server. -/
def demoExits : List ExitRoute := [⟨.ofBytes 10 8 0 3, .ofBytes 10 8 0 2⟩]

theorem demoExits_input : ExitInput demoHub.poolCIDR [⟨.ofBytes 192 168 1 0, 24⟩] demoExits where
  meshOnce := List.nodup_singleton _
  routesOnce := List.nodup_singleton _
  nodes r hr := by
    rw [List.mem_singleton.mp hr]
    exact ⟨_, rfl, by decide⟩

theorem demoHost_bare : Bare demoHub.address demoHost.net where
  sorted := List.pairwise_singleton _ _
  links link hlink := by
    rw [List.mem_singleton.mp hlink]
    exact ⟨rfl, fun _ => by simp⟩

/-- The laptop's exit through the office server. -/
def officeExits : List ExitRoute := [⟨.ofBytes 10 8 0 4, .ofBytes 10 8 0 5⟩]

theorem officeExits_input : ExitInput demoHub.poolCIDR [⟨.ofBytes 192 168 1 0, 24⟩] officeExits where
  meshOnce := List.nodup_singleton _
  routesOnce := List.nodup_singleton _
  nodes r hr := by
    rw [List.mem_singleton.mp hr]
    exact ⟨_, rfl, by decide⟩

/-- Setting a link up makes its device up. -/
theorem isUp_setUp {dev : Dev} (h : (Cmd.setUp dev).exec net = some net') : net'.isUp dev = true := by
  obtain ⟨hthere, -⟩ := exec_eq_some.mp h
  obtain ⟨link, hlink⟩ := List.exists_mem_of_ne_nil _ (hasLink_eq_true.mp hthere)
  apply isUp_eq_true.mpr
  refine ⟨{ link with up := true }, ?_, rfl⟩
  rw [linksAt_exec h dev]
  simp only [Cmd.onLinks, if_true]
  exact List.mem_map_of_mem hlink

/-- A run that a fault in another command than `ip link set up` cuts short. -/
theorem setsUp_of_cut {n : Nat} (hin : ExitInput hub.poolCIDR mesh routes) (ht : ∀ dev, t ≠ .ip false (.setUp dev))
    (h : cut Task.perform n (Applier.ensureExitRoutes hub.address mesh routes) l = some (t, l')) :
    Relation.ReflTransGen (fun c c' => ExitMoves hub c c' ∧ SetsUp c c') ([], l) ([], l') := by
  refine .head ⟨.start hin, fun dev ts he => absurd he (by simp)⟩ ?_
  refine Relation.ReflTransGen.mono (fun c c' hc => ⟨.command hc.1, hc.2⟩) _ _ (steps_of_cut ?_ ?_ h)
  · intro u us new m m' hperform dev ts he
    obtain ⟨rfl, -⟩ := List.cons.inj he
    simp only [Task.perform] at hperform
    split at hperform
    · rename_i net hnet
      obtain ⟨rfl, -⟩ := Prod.mk.inj hperform
      exact isUp_setUp hnet
    · exact absurd (Prod.mk.inj hperform).2 (by simp)
  · intro us m m' _ dev ts he
    exact absurd (List.cons.inj he).1 (ht dev)

/-- The office server's device is up with its route, and the laptop's rule is missing. -/
def officeCut : Live :=
  { demoHost with net :=
    ⟨[Applier.meshRule ⟨.ofBytes 192 168 1 0, 24⟩, mainRule], [wanRoute, ⟨1005, everywhere, .exit 5⟩],
      [⟨.wan, none, true, [.ofBytes 203 0 113 1]⟩,
        ⟨.exit 5, some (demoHub.address, .ofBytes 10 8 0 5), true, [demoHub.address]⟩]⟩ }

/-- The home server's device is up, with no address and no route, and there is no rule. -/
def homeCut : Live :=
  { demoHost with net :=
    ⟨[mainRule], [wanRoute],
      [⟨.wan, none, true, [.ofBytes 203 0 113 1]⟩,
        ⟨.exit 2, some (demoHub.address, .ofBytes 10 8 0 2), true, []⟩]⟩ }

/-- Two runs come before, the laptop's cut short at its rule and the phone's at the address of its device. -/
theorem exit_routing_recovers_cut :
    ExitRuns demoHub ([], demoHost) ([], officeCut) ∧ ExitRuns demoHub ([], officeCut) ([], homeCut) ∧
      Recovers demoHub.address [⟨.ofBytes 192 168 1 0, 24⟩] demoExits homeCut := by
  have hoffice : cut Task.perform 10 (Applier.ensureExitRoutes demoHub.address [⟨.ofBytes 192 168 1 0, 24⟩]
      officeExits) demoHost = some (.ip false (.addRule ⟨exitPref, some (.host (.ofBytes 10 8 0 4)), none, 1005⟩),
        officeCut) := by decide
  have hhome : cut Task.perform 9 (Applier.ensureExitRoutes demoHub.address [⟨.ofBytes 192 168 1 0, 24⟩]
      demoExits) officeCut = some (.ip false (.replaceAddr (.exit 2) demoHub.address), homeCut) := by decide
  have hfirst := setsUp_of_cut officeExits_input (by simp) hoffice
  have hsecond := setsUp_of_cut demoExits_input (by simp) hhome
  have hruns : ∀ {c c' : List Task × Live},
      Relation.ReflTransGen (fun c c' => ExitMoves demoHub c c' ∧ SetsUp c c') c c' → ExitRuns demoHub c c' :=
    fun h => Relation.ReflTransGen.mono (fun _ _ hc => hc.1) _ _ h
  refine ⟨hruns hfirst, hruns hsecond, ?_⟩
  exact (exit_routing_recovers (by decide) demoHost_bare (hruns (hfirst.trans hsecond)) demoExits_input).2
    (hfirst.trans hsecond)

/-- The host after `ip link add` for the home server, whose `ip link set up` then failed. -/
def leftDown : Live :=
  { demoHost with net := (Cmd.addTunnel (.exit 2) demoHub.address (.ofBytes 10 8 0 2)).effect demoHost.net }

/-- Exit routing never comes up again: the run is cut short between the two commands, and from then on none
    returns. -/
theorem ensureExitRoutes_stuck : ExitRuns demoHub ([], demoHost) ([], leftDown) ∧
    ExitInput demoHub.poolCIDR [⟨.ofBytes 192 168 1 0, 24⟩] demoExits ∧
    ¬ Recovers demoHub.address [⟨.ofBytes 192 168 1 0, 24⟩] demoExits leftDown := by
  refine ⟨?_, demoExits_input, ?_⟩
  · have hcut : cut Task.perform 6 (Applier.ensureExitRoutes demoHub.address [⟨.ofBytes 192 168 1 0, 24⟩]
        demoExits) demoHost = some (.ip false (.setUp (.exit 2)), leftDown) := by decide
    apply Relation.ReflTransGen.head (.start demoExits_input)
    refine Relation.ReflTransGen.mono (fun _ _ h => .command h.1) _ _
      (steps_of_cut (R := fun _ _ => True) (fun _ _ _ _ _ _ => trivial) (fun _ _ _ _ => trivial) hcut)
  · rintro ⟨l', hrun, -⟩
    refine not_finishes_of_down (r := ⟨.ofBytes 10 8 0 3, .ofBytes 10 8 0 2⟩) (i := 2) ?_ rfl ?_ hrun
    · exact List.mem_singleton.mpr rfl
    · exact ⟨by decide, by decide⟩

end Service
end BeautyAwg
