import Mathlib.Data.List.Dedup
import BeautyAwg.Service.Applier

/-!
# `Service.Correctness.Routing`: what the applier's commands leave in the kernel

Whatever is cut short, the rules and routes of the hub stay of the applier's own forms (`Routed`). A reconcile
that runs to its end leaves exactly the rules of its snapshot, and a default route for each of its exits
(`Installed`).

## Contents
- **One command.** `Performed`, `Unfolds`: what a task can do, and what it can unfold to.
- **Forms.** `Routed`, kept by every command that `Fits`; `runs_routed`.
- **Lookups.** `lookup_main`, `lookup_exit`.
- **A whole reconcile.** `reconciles_installed`, segment by segment.
-/

namespace BeautyAwg
namespace Service

open Netip Awg Store PolicyRouting Tasks

variable {net net' : Kernel Nat Dev} {l l' : Live} {s : Snapshot} {t : Task}

/-! ## One command -/

/-- The command of a task that has come to one. -/
def Task.cmd : Task → Option (Cmd Nat Dev)
  | flushRules pref => some (.delRule pref)
  | ip _ cmd => some cmd
  | _ => none

/-- What a task can do to the live state. -/
inductive Performed (t : Task) (l : Live) : Live → Prop
  | same : Performed t l l
  | up {s : Snapshot} (ht : t = .awgQuickUp s) : Performed t l { l with net := awgUp s l.net, peers := some s }
  | synced {s : Snapshot} (ht : t = .syncconf s) : Performed t l { l with peers := some s }
  | loaded {s : Snapshot} (ht : t = .loadNFT s) : Performed t l { l with acl := some s }
  | command {c : Cmd Nat Dev} {net : Kernel Nat Dev} (ht : t.cmd = some c) (hc : c.exec l.net = some net) :
      Performed t l { l with net := net }

/-- What a task can unfold to. -/
inductive Unfolds (l : Live) : Task → Task → Prop
  | files (s : Snapshot) : Unfolds l (.ensureIface s) .files
  | syncconf (s : Snapshot) : Unfolds l (.ensureIface s) (.syncconf s)
  | awgQuickUp (s : Snapshot) : Unfolds l (.ensureIface s) (.awgQuickUp s)
  | flush (pref : Nat) : Unfolds l (.flushRules pref) (.flushRules pref)
  | reap {want : List Dev} {dev : Dev} (hdev : dev ∈ l.exitDevices) (hwant : dev ∉ want) :
      Unfolds l (.reapDevices want) (.ip true (.delLink dev))
  | addTunnel (d : ExitDevice) (a : Addr) : Unfolds l (.ensureLink d a) (.ip false (.addTunnel d.name a d.remote))
  | setUp (d : ExitDevice) (a : Addr) : Unfolds l (.ensureLink d a) (.ip false (.setUp d.name))

/-- A task does what its case says. -/
theorem performed (t : Task) (fault : Bool) (l : Live) : Performed t l (t.perform fault l).1 := by
  cases t with
  | awgQuickUp s =>
    simp only [Task.perform]
    split
    · exact .same
    · exact .up rfl
  | syncconf s =>
    simp only [Task.perform]
    split
    · exact .same
    · exact .synced rfl
  | loadNFT s =>
    simp only [Task.perform]
    split
    · exact .same
    · exact .loaded rfl
  | flushRules pref =>
    simp only [Task.perform]
    cases fault
    · split
      · rename_i net hnet
        exact .command rfl hnet
      · exact .same
    · exact .same
  | ip tolerated cmd =>
    simp only [Task.perform]
    cases fault
    · split
      · rename_i net hnet
        exact .command rfl hnet
      · exact .same
    · exact .same
  | _ => exact .same

/-- A task adds the tasks that its case says. -/
theorem unfolds {fault : Bool} {new : List Task} {u : Task} (h : (t.perform fault l).2 = some new)
    (hu : u ∈ new) : Unfolds l t u := by
  cases t with
  | ensureIface s =>
    obtain rfl := Option.some.inj h
    split at hu
    · rcases List.mem_cons.mp hu with rfl | hu
      · exact .files s
      · rw [List.mem_singleton.mp hu]
        exact .syncconf s
    · rw [List.mem_singleton.mp hu]
      exact .awgQuickUp s
  | flushRules pref =>
    simp only [Task.perform] at h
    split at h
    · obtain rfl := Option.some.inj h
      rw [List.mem_singleton.mp hu]
      exact .flush pref
    · obtain rfl := Option.some.inj h
      exact absurd hu List.not_mem_nil
  | reapDevices want =>
    obtain rfl := Option.some.inj h
    split at hu
    · exact absurd hu List.not_mem_nil
    · obtain ⟨dev, hdev, rfl⟩ := List.mem_map.mp hu
      obtain ⟨hdev, hwant⟩ := List.mem_filter.mp hdev
      exact .reap hdev (of_decide_eq_true hwant)
  | ensureLink d a =>
    obtain rfl := Option.some.inj h
    split at hu
    · exact absurd hu List.not_mem_nil
    · rcases List.mem_cons.mp hu with rfl | hu
      · exact .addTunnel d a
      · rw [List.mem_singleton.mp hu]
        exact .setUp d a
  | panicked => exact absurd h (by simp [Task.perform])
  | _ =>
    -- nothing comes in the place of any other task
    simp only [Task.perform] at h
    split at h <;> simp_all

/-! ## Forms -/

/-- The default route of an exit's table. -/
def exitDefault (i : Nat) : Route Nat Dev := ⟨exitTableBase + i, everywhere, .exit i⟩

/-- The rules are the main rule, mesh rules and source rules into exit tables; an exit's table has its default
    route alone, and the main table leads to no exit. -/
structure Routed (net : Kernel Nat Dev) : Prop where
  sorted : net.Sorted
  rules : ∀ r ∈ net.rules, r = mainRule ∨ (∃ p, r = Applier.meshRule p) ∨
    ∃ c i, r = Applier.sourceRule ⟨c, exitTableBase + i⟩
  main : mainRule ∈ net.rules
  routes : ∀ r ∈ net.routes, (r.table = mainTable ∧ r.dev.isExit = false) ∨ ∃ i, r = exitDefault i
  default : wanRoute ∈ net.routes

/-- A clean host is routed, with nothing to route. -/
theorem CleanHost.routed (h : CleanHost net) : Routed net where
  sorted := by
    unfold Kernel.Sorted
    rw [h.rules]
    exact List.pairwise_singleton _ _
  rules r hr := by
    rw [h.rules] at hr
    exact .inl (List.mem_singleton.mp hr)
  main := by
    rw [h.rules]
    exact List.mem_singleton.mpr rfl
  routes r hr := .inl (h.routes r hr)
  default := h.default

/-- The commands of the applier. -/
def CmdFits : Cmd Nat Dev → Prop
  | .addRule r => (∃ p, r = Applier.meshRule p) ∨ ∃ c i, r = Applier.sourceRule ⟨c, exitTableBase + i⟩
  | .delRule pref => pref = exitMeshPref ∨ pref = exitPref
  | .replaceRoute r => (∃ p : Prefix, p.bits ≠ 0 ∧ r = ⟨mainTable, p, .awg⟩) ∨ ∃ i, r = exitDefault i
  | .delRoute r => r.table = 51
  | .addTunnel dev _ _ => dev.isExit = true
  | .delLink dev => dev.isExit = true
  | _ => True

/-- The tasks of the applier. -/
def Task.Fits : Task → Prop
  | flushRules pref => pref = exitMeshPref ∨ pref = exitPref
  | ensureLink d _ => d.name.isExit = true
  | ip _ cmd => CmdFits cmd
  | _ => True

/-- A command that fits keeps the routing in shape. -/
theorem Routed.exec {c : Cmd Nat Dev} (h : Routed net) (hc : CmdFits c) (hexec : c.exec net = some net') :
    Routed net' where
  sorted := exec_sorted hexec h.sorted
  rules r hr := by
    rcases mem_rules_exec hexec hr with hr | rfl
    · exact h.rules r hr
    · exact .inr hc
  main := by
    apply keeps_rule hexec h.main
    rintro rfl
    exact absurd hc (by simp [CmdFits, mainRule, exitMeshPref, exitPref])
  routes r hr := by
    rcases mem_routes_exec hexec hr with hr | rfl
    · exact h.routes r hr
    · rcases hc with ⟨p, -, rfl⟩ | ⟨i, rfl⟩
      · exact .inl ⟨rfl, rfl⟩
      · exact .inr ⟨i, rfl⟩
  default := by
    apply keeps_route hexec h.default
    · rintro x rfl htable hdst
      rcases hc with ⟨p, hp, rfl⟩ | ⟨i, rfl⟩
      · exact hp (congrArg Prefix.bits hdst.symm)
      · have : mainTable = exitTableBase + i := htable
        simp only [mainTable, exitTableBase] at this
        omega
    · rintro rfl
      exact absurd hc (by simp [CmdFits, wanRoute, mainTable])
    · rintro rfl
      exact absurd hc (by simp [CmdFits, wanRoute, Dev.isExit])

/-- The interface's own routes are routes of the main table. -/
theorem Routed.awgUp (h : Routed net) : Routed (awgUp s net) where
  sorted := h.sorted
  rules := h.rules
  main := h.main
  routes r hr := by
    rcases List.mem_append.mp hr with hr | hr
    · exact h.routes r hr
    · obtain ⟨p, -, rfl⟩ := List.mem_map.mp hr
      exact .inl ⟨rfl, rfl⟩
  default := List.mem_append_left _ h.default

/-- The command of a task that fits is one that fits. -/
theorem Task.Fits.cmd {c : Cmd Nat Dev} (ht : t.Fits) (hc : t.cmd = some c) : CmdFits c := by
  cases t with
  | flushRules pref =>
    obtain rfl := Option.some.inj hc
    exact ht
  | ip tolerated cmd =>
    obtain rfl := Option.some.inj hc
    exact ht
  | _ => exact absurd hc (by simp [Task.cmd])

/-- The tasks that a fitting task adds fit. -/
theorem Task.Fits.unfolds {u : Task} (ht : t.Fits) (h : Unfolds l t u) : u.Fits := by
  cases h with
  | flush pref => exact ht
  | reap hdev _ => exact (List.mem_filter.mp hdev).2
  | addTunnel d a => exact ht
  | _ => trivial

/-- A task keeps the forms and unfolds to the applier's tasks. -/
theorem Routed.perform (t : Task) (fault : Bool) (l : Live) (ht : t.Fits) (hl : Routed l.net) :
    Routed (t.perform fault l).1.net ∧ ∀ new, (t.perform fault l).2 = some new → ∀ u ∈ new, u.Fits := by
  refine ⟨?_, fun new hnew u hu => ht.unfolds (Service.unfolds hnew hu)⟩
  have hperformed := performed t fault l
  generalize (t.perform fault l).1 = l' at hperformed ⊢
  cases hperformed with
  | up _ => exact hl.awgUp
  | command hcmd hc => exact hl.exec (ht.cmd hcmd) hc
  | _ => exact hl

/-- The table that a device's default route goes to is the device's own. -/
theorem mem_exitPlan {routes : List ExitRoute} {devs : List ExitDevice} {rules : List ExitRule}
    (h : exitPlan routes = some (devs, rules)) :
    (∀ d, d ∈ devs ↔ ∃ r ∈ routes, exitDevice r.node = some d) ∧
      ∀ x, x ∈ rules ↔ ∃ r ∈ routes, exitRule r = some x := by
  unfold exitPlan at h
  split at h
  · obtain ⟨rfl, rfl⟩ := Prod.mk.inj (Option.some.inj h)
    constructor
    · intro d
      rw [List.mem_insertionSort, List.mem_filterMap]
      simp only [List.mem_dedup, List.mem_map, exists_exists_and_eq_and]
    · intro x
      rw [List.mem_insertionSort, List.mem_filterMap]
  · exact absurd h (by simp)

/-- A device's name and table come from its node's index. -/
theorem exitDevice_eq {node : Addr} {d : ExitDevice} (h : exitDevice node = some d) :
    ∃ i, exitIndex node = some i ∧ d = ⟨.exit i, node, exitTableBase + i⟩ := by
  obtain ⟨i, hi, rfl⟩ := Option.map_eq_some_iff.mp h
  exact ⟨i, hi, rfl⟩

/-- The table of a rule comes from its node's index. -/
theorem exitRule_eq {r : ExitRoute} {x : ExitRule} (h : exitRule r = some x) :
    ∃ i, exitIndex r.node = some i ∧ x = ⟨r.client, exitTableBase + i⟩ := by
  obtain ⟨i, hi, rfl⟩ := Option.map_eq_some_iff.mp h
  exact ⟨i, hi, rfl⟩

/-- The tasks of `EnsureExitRoutes`. -/
inductive ExitTask (hubAddr : Addr) (mesh : List Prefix) (routes : List ExitRoute) : Task → Prop
  | panicked : ExitTask hubAddr mesh routes .panicked
  | flush {pref : Nat} (hpref : pref = exitMeshPref ∨ pref = exitPref) :
      ExitTask hubAddr mesh routes (.flushRules pref)
  | oldRoute : ExitTask hubAddr mesh routes (.ip true (.delRoute ⟨51, everywhere, .awg⟩))
  | reap {want : List Dev} (hwant : ∀ r ∈ routes, ∀ i, exitIndex r.node = some i → .exit i ∈ want) :
      ExitTask hubAddr mesh routes (.reapDevices want)
  | ensureLink {r : ExitRoute} {i : Nat} (hr : r ∈ routes) (hi : exitIndex r.node = some i) :
      ExitTask hubAddr mesh routes (.ensureLink ⟨.exit i, r.node, exitTableBase + i⟩ hubAddr)
  | address {r : ExitRoute} {i : Nat} (hr : r ∈ routes) (hi : exitIndex r.node = some i) :
      ExitTask hubAddr mesh routes (.ip false (.replaceAddr (.exit i) hubAddr))
  | default {r : ExitRoute} {i : Nat} (hr : r ∈ routes) (hi : exitIndex r.node = some i) :
      ExitTask hubAddr mesh routes (.ip false (.replaceRoute (exitDefault i)))
  | meshRule {p : Prefix} (hp : p ∈ mesh) : ExitTask hubAddr mesh routes (.ip false (.addRule (Applier.meshRule p)))
  | sourceRule {r : ExitRoute} {i : Nat} (hr : r ∈ routes) (hi : exitIndex r.node = some i) :
      ExitTask hubAddr mesh routes (.ip false (.addRule (Applier.sourceRule ⟨r.client, exitTableBase + i⟩)))

/-- Every planned exit has its device and its rule. -/
theorem planned {routes : List ExitRoute} {devs : List ExitDevice} {rules : List ExitRule}
    (h : exitPlan routes = some (devs, rules)) {r : ExitRoute} (hr : r ∈ routes) :
    ∃ i, exitIndex r.node = some i ∧ ⟨.exit i, r.node, exitTableBase + i⟩ ∈ devs ∧
      ⟨r.client, exitTableBase + i⟩ ∈ rules := by
  obtain ⟨hdevs, hrules⟩ := mem_exitPlan h
  have hsome : (exitIndex r.node).isSome = true := by
    unfold exitPlan at h
    split at h
    · rename_i hall
      exact List.all_eq_true.mp hall r hr
    · exact absurd h (by simp)
  obtain ⟨i, hi⟩ := Option.isSome_iff_exists.mp hsome
  refine ⟨i, hi, (hdevs _).mpr ⟨r, hr, ?_⟩, (hrules _).mpr ⟨r, hr, ?_⟩⟩
  · unfold exitDevice
    rw [hi]
    rfl
  · unfold exitRule
    rw [hi]
    rfl

/-- Every task for the exits is of one of these kinds. -/
theorem exitTask {hubAddr : Addr} {mesh : List Prefix} {routes : List ExitRoute}
    (ht : t ∈ Applier.ensureExitRoutes hubAddr mesh routes) : ExitTask hubAddr mesh routes t := by
  unfold Applier.ensureExitRoutes at ht
  split at ht
  · rw [List.mem_singleton.mp ht]
    exact .panicked
  · rename_i devs rules hplan
    obtain ⟨hdevs, hrules⟩ := mem_exitPlan hplan
    simp only [List.mem_append, List.mem_cons, List.not_mem_nil, or_false] at ht
    rcases ht with ((((rfl | rfl | rfl | rfl) | ht) | ht) | ht)
    · exact .flush (.inl rfl)
    · exact .flush (.inr rfl)
    · exact .oldRoute
    · apply ExitTask.reap
      intro r hr i hi
      obtain ⟨j, hj, hdev, -⟩ := planned hplan hr
      obtain rfl := Option.some.inj (hj.symm.trans hi)
      exact List.mem_map_of_mem hdev
    · obtain ⟨d, hd, ht⟩ := List.mem_flatMap.mp ht
      obtain ⟨r, hr, hnode⟩ := (hdevs d).mp hd
      obtain ⟨i, hi, rfl⟩ := exitDevice_eq hnode
      simp only [Applier.deviceTasks, List.mem_cons, List.not_mem_nil, or_false] at ht
      rcases ht with rfl | rfl | rfl
      · exact .ensureLink hr hi
      · exact .address hr hi
      · exact .default hr hi
    · obtain ⟨p, hp, rfl⟩ := List.mem_map.mp ht
      exact .meshRule hp
    · obtain ⟨x, hx, rfl⟩ := List.mem_map.mp ht
      obtain ⟨r, hr, hrule⟩ := (hrules x).mp hx
      obtain ⟨i, hi, rfl⟩ := exitRule_eq hrule
      exact .sourceRule hr hi

theorem ensureExitRoutes_fits (hubAddr : Addr) (mesh : List Prefix) (routes : List ExitRoute) :
    ∀ t ∈ Applier.ensureExitRoutes hubAddr mesh routes, t.Fits := by
  intro t ht
  have htask := exitTask ht
  cases htask with
  | flush hpref => exact hpref
  | oldRoute => rfl
  | ensureLink hr hi => rfl
  | default hr hi => exact .inr ⟨_, rfl⟩
  | meshRule hp => exact .inl ⟨_, rfl⟩
  | sourceRule hr hi => exact .inr ⟨_, _, rfl⟩
  | _ => trivial

/-- All tasks of a reconcile fit. -/
theorem reconcile_fits (s : Snapshot) : ∀ t ∈ reconcile s, t.Fits := by
  intro t ht
  rcases List.mem_append.mp ht with ht | ht
  · rcases List.mem_append.mp ht with ht | ht
    · simp only [Applier.apply, List.mem_cons, List.not_mem_nil, or_false] at ht
      rcases ht with rfl | rfl | rfl <;> trivial
    · obtain ⟨p, hp, rfl⟩ := List.mem_map.mp ht
      exact .inl ⟨p, by simpa using (List.mem_filter.mp hp).2, rfl⟩
  · exact ensureExitRoutes_fits _ _ _ t ht

/-- **The forms in every run.** -/
theorem runs_routed {kind : Snapshot → Prop} {c : List Task × Live} (h : Runs kind ([], l) c)
    (hclean : CleanHost l.net) : (∀ t ∈ c.1, t.Fits) ∧ Routed c.2.net := by
  induction h with
  | refl => exact ⟨fun t ht => absurd ht List.not_mem_nil, hclean.routed⟩
  | tail _ hmove ih =>
    cases hmove with
    | start hs => exact ⟨reconcile_fits _, ih.2⟩
    | command hstep => exact hstep.keeps (fun t fault l => Routed.perform t fault l) ih.1 ih.2

/-! ## Lookups -/

/-- The main table has a route for every address, and none of its routes leads to an exit. -/
theorem lookup_main (h : Routed net) (y : BitVec 32) :
    ∃ dev, net.lookup mainTable (.v4 y) = some dev ∧ dev.isExit = false := by
  obtain ⟨dev, hdev⟩ := exists_lookup h.default rfl (everywhere_contains y)
  refine ⟨dev, hdev, ?_⟩
  obtain ⟨r, hr, htable, -, rfl⟩ := route_of_lookup hdev
  rcases h.routes r hr with ⟨-, hexit⟩ | ⟨i, rfl⟩
  · exact hexit
  · have : exitTableBase + i = mainTable := htable
    simp only [mainTable, exitTableBase] at this
    omega

/-- An exit's table leads to the exit. -/
theorem lookup_exit {i : Nat} (h : Routed net) (hi : exitDefault i ∈ net.routes) (y : BitVec 32) :
    net.lookup (exitTableBase + i) (.v4 y) = some (.exit i) := by
  apply lookup_eq
  · exact ⟨exitDefault i, hi, rfl, everywhere_contains y⟩
  · intro r hr htable _
    rcases h.routes r hr with ⟨hmain, -⟩ | ⟨j, rfl⟩
    · rw [hmain] at htable
      simp only [mainTable, exitTableBase] at htable
      omega
    · have : exitTableBase + j = exitTableBase + i := htable
      rw [Nat.add_left_cancel this]
      rfl

/-! ## A whole reconcile -/

/-- A list that starts with a command finishes when the command goes through and the rest does. -/
theorem finishes_ip {cmd : Cmd Nat Dev} {ts : List Task}
    (h : Finishes Task.perform (.ip false cmd :: ts) l l') :
    ∃ net, cmd.exec l.net = some net ∧ Finishes Task.perform ts { l with net := net } l' := by
  obtain ⟨m, new, hperform, hrest⟩ := Finishes.cons_iff.mp h
  simp only [Task.perform, Bool.false_eq_true, if_false] at hperform
  split at hperform
  · rename_i net hnet
    obtain ⟨rfl, hnew⟩ := Prod.mk.inj hperform
    obtain rfl := Option.some.inj hnew
    exact ⟨net, hnet, hrest⟩
  · exact absurd (Prod.mk.inj hperform).2 (by simp)

/-- The loop of `ip rule del` leaves no rule of its preference and does not touch the others. -/
theorem finishes_flush {pref : Nat} (h : Finishes Task.perform [.flushRules pref] l l') (hs : l.net.Sorted) :
    l'.net.Sorted ∧ l'.net.rulesAt pref = [] ∧ ∀ q ≠ pref, l'.net.rulesAt q = l.net.rulesAt q := by
  generalize hts : [Task.flushRules pref] = ts at h
  induction h with
  | nil => exact absurd hts (by simp)
  | @cons t ts new l m l' hperform hrest ih =>
    obtain ⟨rfl, rfl⟩ := List.cons.inj hts
    simp only [Task.perform, Bool.false_eq_true, if_false] at hperform
    split at hperform
    · rename_i net hnet
      obtain ⟨rfl, hnew⟩ := Prod.mk.inj hperform
      obtain rfl := Option.some.inj hnew
      obtain ⟨hsorted, hnone, hother⟩ := ih (exec_sorted hnet hs) rfl
      refine ⟨hsorted, hnone, fun q hq => ?_⟩
      rw [hother q hq, rulesAt_exec hnet hs]
      exact if_neg hq.symm
    · rename_i hnone
      obtain ⟨rfl, hnew⟩ := Prod.mk.inj hperform
      obtain rfl := Option.some.inj hnew
      cases hrest
      exact ⟨hs, delRule_eq_none.mp hnone, fun _ _ => rfl⟩

/-- A list of rules that are added one by one. -/
theorem finishes_addRules {rules : List (PolicyRouting.Rule Nat)}
    (h : Finishes Task.perform (rules.map fun r => .ip false (.addRule r)) l l') (hs : l.net.Sorted) :
    l'.net.Sorted ∧ (∀ q, l'.net.rulesAt q = l.net.rulesAt q ++ rules.filter fun r => r.pref = q) ∧
      l'.net.routes = l.net.routes ∧ l'.net.links = l.net.links := by
  induction rules generalizing l with
  | nil =>
    cases h
    exact ⟨hs, fun q => by simp, rfl, rfl⟩
  | cons r rules ih =>
    obtain ⟨net, hnet, hrest⟩ := finishes_ip h
    obtain ⟨hsorted, hrules, hroutes, hlinks⟩ := ih hrest (exec_sorted hnet hs)
    obtain ⟨-, rfl⟩ := exec_eq_some.mp hnet
    refine ⟨hsorted, fun q => ?_, hroutes, hlinks⟩
    rw [hrules q, rulesAt_exec hnet hs, List.filter_cons]
    by_cases hq : r.pref = q
    · simp [Cmd.onRules, hq]
    · simp [Cmd.onRules, hq]

/-- The task does not load a ruleset. -/
def Task.keepsAcl : Task → Prop
  | loadNFT _ => False
  | _ => True

/-- The task's command, if it comes to one, does not change the policy rules. -/
def Task.keepsRules (t : Task) : Prop := ∀ c, t.cmd = some c → ∀ k : Kernel Nat Dev, (c.effect k).rules = k.rules

/-- The command takes no device away. -/
def CmdBuilds (c : Cmd Nat Dev) : Prop := ∀ dev, c ≠ .delLink dev

/-- The task takes no device away. -/
def Task.builds (t : Task) : Prop := (∀ c, t.cmd = some c → CmdBuilds c) ∧ ∀ want, t ≠ .reapDevices want

/-- Tasks that each leave the ruleset alone leave it together. -/
theorem finishes_keepsAcl {ts : List Task} (h : Finishes Task.perform ts l l') (hts : ∀ t ∈ ts, t.keepsAcl) :
    l'.acl = l.acl := by
  apply h.keeps (G := Task.keepsAcl) (P := fun m => m.acl = l.acl) _ hts rfl
  intro t m m' new ht hm hperform
  have hperformed := performed t false m
  rw [hperform] at hperformed
  refine ⟨?_, fun u hu => ?_⟩
  · cases hperformed with
    | loaded he =>
      subst he
      exact absurd ht id
    | _ => exact hm
  · have hunfolds := unfolds (by rw [hperform]) hu
    cases hunfolds <;> trivial

/-- Tasks that each leave the rules alone leave them together. -/
theorem finishes_keepsRules {ts : List Task} (h : Finishes Task.perform ts l l')
    (hts : ∀ t ∈ ts, t.keepsRules) : l'.net.rules = l.net.rules := by
  apply h.keeps (G := Task.keepsRules) (P := fun m => m.net.rules = l.net.rules) _ hts rfl
  intro t m m' new ht hm hperform
  have hperformed := performed t false m
  rw [hperform] at hperformed
  refine ⟨?_, fun u hu => ?_⟩
  · cases hperformed with
    | command hcmd hc =>
      obtain ⟨-, rfl⟩ := exec_eq_some.mp hc
      exact (ht _ hcmd _).trans hm
    | _ => exact hm
  · have hunfolds := unfolds (by rw [hperform]) hu
    cases hunfolds with
    | flush pref => exact ht
    | _ =>
      intro c hc k
      cases hc <;> rfl

/-- The exit has its default route and its device. -/
def HasExit (net : Kernel Nat Dev) (i : Nat) : Prop :=
  exitDefault i ∈ net.routes ∧ ∃ link ∈ net.links, link.dev = .exit i

/-- An exit's route is put in again or left alone; it goes with its device only. -/
theorem keeps_exitDefault {i : Nat} {c : Cmd Nat Dev} (hc : c.exec net = some net') (hfits : CmdFits c)
    (hroute : exitDefault i ∈ net.routes) (hlink : c ≠ .delLink (.exit i)) : exitDefault i ∈ net'.routes := by
  by_cases hsame : ∃ x, c = .replaceRoute x ∧ x.table = exitTableBase + i
  · -- the same route, put in again
    obtain ⟨x, rfl, htable⟩ := hsame
    rcases hfits with ⟨p, -, rfl⟩ | ⟨j, rfl⟩
    · have : mainTable = exitTableBase + i := htable
      simp only [mainTable, exitTableBase] at this
      omega
    · have hj : exitTableBase + j = exitTableBase + i := htable
      rw [← Nat.add_left_cancel hj]
      exact (mem_replaceRoute hc).1
  · apply keeps_route hc hroute
    · intro x hx htable _
      exact hsame ⟨x, hx, htable.symm⟩
    · rintro rfl
      exact absurd hfits (by simp only [CmdFits, exitDefault, exitTableBase]; omega)
    · exact hlink

/-- An exit that is in place stays so through commands that build. -/
theorem HasExit.exec {i : Nat} {c : Cmd Nat Dev} (h : HasExit net i) (hc : c.exec net = some net')
    (hfits : CmdFits c) (hbuilds : CmdBuilds c) : HasExit net' i :=
  ⟨keeps_exitDefault hc hfits h.1 (hbuilds _), keeps_link hc h.2 (hbuilds _)⟩

theorem finishes_hasExit {ts : List Task} {i : Nat} (h : Finishes Task.perform ts l l')
    (hts : ∀ t ∈ ts, t.Fits ∧ t.builds) (hi : HasExit l.net i) : HasExit l'.net i := by
  apply h.keeps (G := fun t => t.Fits ∧ t.builds) (P := fun m => HasExit m.net i) _ hts hi
  intro t m m' new ht hm hperform
  have hperformed := performed t false m
  rw [hperform] at hperformed
  refine ⟨?_, fun u hu => ?_⟩
  · cases hperformed with
    | up he =>
      obtain ⟨hroute, link, hlink, hdev⟩ := hm
      exact ⟨List.mem_append_left _ hroute, link, List.mem_append_left _ hlink, hdev⟩
    | command hcmd hc => exact hm.exec hc (ht.1.cmd hcmd) (ht.2.1 _ hcmd)
    | _ => exact hm
  · have hunfolds := unfolds (by rw [hperform]) hu
    refine ⟨ht.1.unfolds hunfolds, ?_⟩
    cases hunfolds with
    | flush pref => exact ht.2
    | reap hdev hwant => exact absurd rfl (ht.2.2 _)
    | _ => simp [Task.builds, CmdBuilds, Task.cmd]

/-- A finished list of fitting tasks leaves the routing in shape. -/
theorem finishes_routed {ts : List Task} (h : Finishes Task.perform ts l l') (hts : ∀ t ∈ ts, t.Fits)
    (hl : Routed l.net) : Routed l'.net := by
  apply h.keeps (G := Task.Fits) (P := fun m => Routed m.net) _ hts hl
  intro t m m' new ht hm hperform
  have hkeep := Routed.perform t false m ht hm
  rw [hperform] at hkeep
  exact ⟨hkeep.1, hkeep.2 new rfl⟩

/-- Loading a ruleset puts it in place. -/
theorem finishes_loadNFT {ts : List Task} (h : Finishes Task.perform (.loadNFT s :: ts) l l') :
    Finishes Task.perform ts { l with acl := some s } l' := by
  obtain ⟨m, new, hperform, hrest⟩ := Finishes.cons_iff.mp h
  simp only [Task.perform] at hperform
  split at hperform
  · exact absurd (Prod.mk.inj hperform).2 (by simp)
  · obtain ⟨rfl, hnew⟩ := Prod.mk.inj hperform
    obtain rfl := Option.some.inj hnew
    exact hrest

theorem deviceTasks_builds {hubAddr : Addr} {d : ExitDevice} :
    ∀ t ∈ Applier.deviceTasks hubAddr d, t.builds ∧ t.keepsRules := by
  intro t ht
  simp only [Applier.deviceTasks, List.mem_cons, List.not_mem_nil, or_false] at ht
  rcases ht with rfl | rfl | rfl
  · refine ⟨by simp [Task.builds, CmdBuilds, Task.cmd], fun c hc => ?_⟩
    exact absurd hc (by simp [Task.cmd])
  · refine ⟨by simp [Task.builds, CmdBuilds, Task.cmd], fun c hc k => ?_⟩
    obtain rfl := Option.some.inj hc
    rfl
  · refine ⟨by simp [Task.builds, CmdBuilds, Task.cmd], fun c hc k => ?_⟩
    obtain rfl := Option.some.inj hc
    rfl

/-- Each device gets its default route, and the devices after it leave it alone. -/
theorem finishes_devices {hubAddr : Addr} {devs : List ExitDevice}
    (h : Finishes Task.perform (devs.flatMap (Applier.deviceTasks hubAddr)) l l')
    (hts : ∀ t ∈ devs.flatMap (Applier.deviceTasks hubAddr), t.Fits) {i : Nat} {a : Addr}
    (hi : ⟨.exit i, a, exitTableBase + i⟩ ∈ devs) : HasExit l'.net i := by
  induction devs generalizing l with
  | nil => exact absurd hi List.not_mem_nil
  | cons d devs ih =>
    rw [List.flatMap_cons] at h hts
    obtain ⟨m, hfirst, hrest⟩ := finishes_append.mp h
    have hts' : ∀ t ∈ devs.flatMap (Applier.deviceTasks hubAddr), t.Fits :=
      fun t ht => hts t (List.mem_append_right _ ht)
    rcases List.mem_cons.mp hi with rfl | hi
    · have hexit : HasExit m.net i := by
        obtain ⟨m', -, hroute⟩ := finishes_append.mp
          (show Finishes Task.perform ([_, _] ++ [_]) l m from hfirst)
        obtain ⟨net, hnet, hend⟩ := finishes_ip hroute
        cases hend
        exact mem_replaceRoute hnet
      refine finishes_hasExit hrest (fun t ht => ⟨hts' t ht, ?_⟩) hexit
      obtain ⟨d, -, ht⟩ := List.mem_flatMap.mp ht
      exact (deviceTasks_builds t ht).1
    · exact ih hrest hts' hi

/-- The kernel has the exit routing of a plan: exactly its rules, and a default route for each exit. -/
structure HasPlan (mesh : List Prefix) (devs : List ExitDevice) (rules : List ExitRule)
    (net : Kernel Nat Dev) : Prop where
  meshRules : net.rulesAt exitMeshPref = mesh.map Applier.meshRule
  sourceRules : net.rulesAt exitPref = rules.map Applier.sourceRule
  exits : ∀ i a, ⟨.exit i, a, exitTableBase + i⟩ ∈ devs → HasExit net i

theorem filter_map_pref {α : Type} {f : α → PolicyRouting.Rule Nat} {xs : List α} {q : Nat} (pref : Nat)
    (hf : ∀ x, (f x).pref = pref) : (xs.map f).filter (fun r => r.pref = q) = if pref = q then xs.map f else [] := by
  split
  · rename_i he
    apply List.filter_eq_self.mpr
    intro r hr
    obtain ⟨x, -, rfl⟩ := List.mem_map.mp hr
    exact decide_eq_true ((hf x).trans he)
  · rename_i hne
    apply List.filter_eq_nil_iff.mpr
    intro r hr
    obtain ⟨x, -, rfl⟩ := List.mem_map.mp hr
    rw [hf x]
    simpa using hne

/-- What comes after the old rules are gone. -/
def afterFlush (hubAddr : Addr) (mesh : List Prefix) (devs : List ExitDevice) (rules : List ExitRule) :
    List Task :=
  [.ip true (.delRoute ⟨51, everywhere, .awg⟩), .reapDevices (devs.map ExitDevice.name)]
    ++ devs.flatMap (Applier.deviceTasks hubAddr)
    ++ (mesh.map Applier.meshRule).map (fun r => .ip false (.addRule r))
    ++ (rules.map Applier.sourceRule).map fun r => .ip false (.addRule r)

/-- The exits' tasks: two flushes, then what comes after them. -/
theorem ensureExitRoutes_eq {hubAddr : Addr} {mesh : List Prefix} {routes : List ExitRoute}
    {devs : List ExitDevice} {rules : List ExitRule} (h : exitPlan routes = some (devs, rules)) :
    Applier.ensureExitRoutes hubAddr mesh routes =
      [.flushRules exitMeshPref, .flushRules exitPref] ++ afterFlush hubAddr mesh devs rules := by
  unfold Applier.ensureExitRoutes afterFlush
  rw [h, List.map_map, List.map_map]
  rfl

/-- The old rules go first. -/
theorem finishes_flushes {hubAddr : Addr} {mesh : List Prefix} {routes : List ExitRoute}
    (h : Finishes Task.perform (Applier.ensureExitRoutes hubAddr mesh routes) l l') (hs : l.net.Sorted) :
    ∃ devs rules m, exitPlan routes = some (devs, rules) ∧
      Finishes Task.perform [.flushRules exitMeshPref, .flushRules exitPref] l m ∧
      Finishes Task.perform (afterFlush hubAddr mesh devs rules) m l' ∧
      m.net.Sorted ∧ m.net.rulesAt exitMeshPref = [] ∧ m.net.rulesAt exitPref = [] := by
  cases hplan : exitPlan routes with
  | none =>
    unfold Applier.ensureExitRoutes at h
    rw [hplan] at h
    obtain ⟨m, new, hperform, -⟩ := Finishes.cons_iff.mp h
    exact absurd (Prod.mk.inj hperform).2 (by simp)
  | some plan =>
    obtain ⟨devs, rules⟩ := plan
    rw [ensureExitRoutes_eq hplan] at h
    obtain ⟨m, hflush, hafter⟩ := finishes_append.mp h
    obtain ⟨m', hfirst, hsecond⟩ := finishes_append.mp (show Finishes Task.perform ([_] ++ [_]) l m from hflush)
    obtain ⟨hs', hmesh, -⟩ := finishes_flush hfirst hs
    obtain ⟨hs'', hsource, hother⟩ := finishes_flush hsecond hs'
    refine ⟨devs, rules, m, rfl, hflush, hafter, hs'', ?_, hsource⟩
    rw [hother exitMeshPref (by decide), hmesh]

/-- **Exit routes, the whole way.** Flushed rules, devices, mesh rules, source rules. -/
theorem finishes_ensureExitRoutes {hubAddr : Addr} {mesh : List Prefix} {routes : List ExitRoute}
    (h : Finishes Task.perform (Applier.ensureExitRoutes hubAddr mesh routes) l l') (hs : l.net.Sorted) :
    ∃ devs rules, exitPlan routes = some (devs, rules) ∧ HasPlan mesh devs rules l'.net := by
  obtain ⟨devs, rules, m₀, hplan, -, h, hs₀, hmesh₀, hsource₀⟩ := finishes_flushes h hs
  have hfits := ensureExitRoutes_fits hubAddr mesh routes
  rw [ensureExitRoutes_eq hplan] at hfits
  obtain ⟨m₃, h, hsource⟩ := finishes_append.mp h
  obtain ⟨m₂, h, hmesh⟩ := finishes_append.mp h
  obtain ⟨m₁, hquiet, hdevs⟩ := finishes_append.mp h
  -- the devices do not bring any rules
  have hrules₁ : m₁.net.rules = m₀.net.rules := by
    apply finishes_keepsRules hquiet
    intro t ht c hc k
    simp only [List.mem_cons, List.not_mem_nil, or_false] at ht
    rcases ht with rfl | rfl <;> cases hc
    rfl
  have hrules₂ : m₂.net.rules = m₁.net.rules := by
    apply finishes_keepsRules hdevs
    intro t ht
    obtain ⟨d, -, ht⟩ := List.mem_flatMap.mp ht
    exact (deviceTasks_builds t ht).2
  have hs₂ : m₂.net.Sorted := by
    unfold Kernel.Sorted
    rw [hrules₂, hrules₁]
    exact hs₀
  have hnone : ∀ q, m₀.net.rulesAt q = [] → m₂.net.rulesAt q = [] := by
    intro q hq
    unfold Kernel.rulesAt at *
    rw [hrules₂, hrules₁]
    exact hq
  -- the new rules, one preference after the other
  obtain ⟨hs₃, hrules₃, hroutes₃, hlinks₃⟩ := finishes_addRules hmesh hs₂
  obtain ⟨-, hrules₄, hroutes₄, hlinks₄⟩ := finishes_addRules hsource hs₃
  refine ⟨devs, rules, hplan, ?_, ?_, ?_⟩
  · rw [hrules₄, hrules₃, hnone _ hmesh₀, filter_map_pref exitMeshPref fun _ => rfl,
      filter_map_pref exitPref fun _ => rfl]
    simp [exitPref, exitMeshPref]
  · rw [hrules₄, hrules₃, hnone _ hsource₀, filter_map_pref exitMeshPref fun _ => rfl,
      filter_map_pref exitPref fun _ => rfl]
    simp [exitPref, exitMeshPref]
  · intro i a hi
    unfold HasExit
    rw [hroutes₄, hlinks₄, hroutes₃, hlinks₃]
    refine finishes_devices hdevs (fun t ht => hfits t (List.mem_append_right _ ?_)) hi
    exact List.mem_append_left _ (List.mem_append_left _ (List.mem_append_right _ ht))

/-- The kernel and the ruleset after a whole reconcile of the snapshot. -/
structure Installed (s : Snapshot) (l : Live) : Prop where
  routed : Routed l.net
  acl : l.acl = some s
  plan : ∃ devs rules, exitPlan (exitRoutes s.grants) = some (devs, rules) ∧
    HasPlan (mesh s.hub s.nodes) devs rules l.net

theorem ensureRoutes_keepsAcl (subnets : List Prefix) : ∀ t ∈ Applier.ensureRoutes subnets, t.keepsAcl := by
  intro t ht
  obtain ⟨p, -, rfl⟩ := List.mem_map.mp ht
  trivial

theorem ensureExitRoutes_keepsAcl (hubAddr : Addr) (mesh : List Prefix) (routes : List ExitRoute) :
    ∀ t ∈ Applier.ensureExitRoutes hubAddr mesh routes, t.keepsAcl := by
  intro t ht
  have htask := exitTask ht
  cases htask <;> trivial

/-- The reconcile up to the exit routes, and the exit routes. -/
theorem reconciles_cut (h : Reconciles s l l') (hl : Routed l.net) :
    ∃ m, Finishes Task.perform (Applier.apply s ++ Applier.ensureRoutes (Plan.of s).routes) l m ∧
      Finishes Task.perform (Applier.ensureExitRoutes s.hub.address (mesh s.hub s.nodes) (exitRoutes s.grants)) m l' ∧
      Routed m.net ∧ m.acl = some s := by
  obtain ⟨m, hfirst, hexits⟩ := finishes_append.mp h
  refine ⟨m, hfirst, hexits, ?_, ?_⟩
  · exact finishes_routed hfirst (fun t ht => reconcile_fits s t (List.mem_append_left _ ht)) hl
  · obtain ⟨m', happly, hroutes⟩ := finishes_append.mp hfirst
    obtain ⟨m'', -, hload⟩ := finishes_append.mp
      (show Finishes Task.perform ([_, _] ++ [.loadNFT s]) l m' from happly)
    have hacl := finishes_loadNFT hload
    rw [finishes_keepsAcl hroutes (ensureRoutes_keepsAcl _)]
    cases hacl
    rfl

/-- **A whole reconcile.** -/
theorem reconciles_installed (h : Reconciles s l l') (hl : Routed l.net) : Installed s l' := by
  obtain ⟨m, -, hexits, hm, hacl⟩ := reconciles_cut h hl
  refine ⟨?_, ?_, finishes_ensureExitRoutes hexits hm.sorted⟩
  · exact finishes_routed hexits (ensureExitRoutes_fits _ _ _) hm
  · rw [finishes_keepsAcl hexits (ensureExitRoutes_keepsAcl _ _ _), hacl]

end Service
end BeautyAwg
