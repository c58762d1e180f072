import BeautyAwg.NodeAgent.HostNet
import BeautyAwg.NodeAgent.Correctness.Firewall

/-!
# `NodeAgent.Correctness.Inverse`: a teardown undoes a bring-up

The rules are counted: a strict line that succeeds adds its rule for sure, a tolerated one once at most, and
what the `PostDown` lines delete is what both may have added. A rule of a tolerated line was not there before,
so the one that is deleted is never somebody else's. Of the network only the exit's device, table and mark are
touched (`Extends`), and they are deleted by name.

## Contents
- **Rules.** `namedBy`, `count_bringUp`, `takeDown_rules`.
- **Network.** `Extends`, `extends_bringUp`, `takeDown_net`.
- **Result.** `takeDown_bringUp`.
-/

namespace BeautyAwg
namespace NodeAgent

open Netip Awg

variable {env : Env} {hub : Hub} {n : Node} {reach : List Prefix} {broken : Nat → Bool} {s : HostState}

/-! ## Rules -/

/-- The rules that lines are there to add. -/
def namedBy (env : Env) (ls : List (Script.Line Cmd)) : Multiset IptRule :=
  ((ls.filterMap fun l => addedRule l.cmd).map env.stored : List IptRule)

theorem namedBy_append (ls ls' : List (Script.Line Cmd)) :
    namedBy env (ls ++ ls') = namedBy env ls + namedBy env ls' := by
  unfold namedBy
  rw [List.filterMap_append, List.map_append, ← Multiset.coe_add]

theorem namedBy_cons (l : Script.Line Cmd) (ls : List (Script.Line Cmd)) :
    namedBy env (l :: ls) = namedBy env [l] + namedBy env ls := namedBy_append [l] ls

/-- What lines can add is among the rules that they name. -/
theorem addedBy_le_namedBy (ls : List (Script.Line Cmd)) : addedBy env ls ≤ namedBy env ls :=
  Multiset.coe_le.mpr ((List.filter_sublist.filterMap _).map env.stored).subperm

/-- The rules of the linked subnets, of the pool and of the tunnel. -/
def strictRules (env : Env) (hub : Hub) (n : Node) (reach : List Prefix) : Multiset IptRule :=
  {env.stored (poolRule hub)} + reachRules env n reach + (forwardRules.map env.stored : List IptRule)

/-- The rules that may be missing, as they are stored. -/
def optionalRules (env : Env) : Multiset IptRule := (tailRules.map env.stored : List IptRule)

/-- The `PostUp` lines that have to succeed. -/
def strictUp (hub : Hub) (n : Node) (reach : List Prefix) : List (Script.Line Cmd) :=
  strict (.sysctl "net.ipv4.ip_forward=1") ::
    (([poolRule hub] ++ reach.map (reachRule n)).map (fun r => strict (.add false r)) ++
      forwardRules.map (fun r => strict (.add true r)))

/-- The `PostUp` lines are the ones that must succeed and then the optional ones. -/
theorem lines_up_split : lines true (nodeHooks hub n reach) = strictUp hub n reach ++ upTail hub n := by
  rw [lines_up, strictUp]
  simp only [List.cons_append, List.append_assoc]

theorem strictUp_strict : ∀ l ∈ strictUp hub n reach, l.tolerated = false := by
  intro l hl
  rcases List.mem_cons.mp hl with rfl | hl
  · rfl
  · rcases List.mem_append.mp hl with hl | hl <;>
      obtain ⟨r, -, rfl⟩ := List.mem_map.mp hl <;> rfl

theorem namedBy_adds (rs : List IptRule) (atHead : Bool) :
    namedBy env (rs.map fun r => strict (.add atHead r)) = (rs.map env.stored : List IptRule) := by
  rw [namedBy, List.filterMap_map, show (fun l : Script.Line Cmd => addedRule l.cmd) ∘
    (fun r => strict (.add atHead r)) = some from rfl, List.filterMap_some]

/-- The lines that must succeed name the rules that a file must have. -/
theorem namedBy_strictUp : namedBy env (strictUp hub n reach) = strictRules env hub n reach := by
  rw [strictUp, namedBy_cons, namedBy_append, namedBy_adds, namedBy_adds, List.map_append, ← Multiset.coe_add,
    List.map_map, strictRules]
  exact Multiset.zero_add _

/-- The other `PostUp` lines name the optional rules. -/
theorem namedBy_upTail : namedBy env (upTail hub n) = optionalRules env := by
  rw [namedBy, upTail_adds, optionalRules]

/-- What the `PostDown` lines delete is what the `PostUp` lines name. -/
theorem deletedBy_eq : deletedBy env (lines false (nodeHooks hub n reach)) =
    strictRules env hub n reach + optionalRules env := by
  have hperm : (fixedRules hub).Perm (poolRule hub :: (forwardRules ++ tailRules)) := by
    refine (List.perm_ext_iff_of_nodup (List.Nodup.of_map kind kinds_nodup) (List.Nodup.of_map kind ?_)).mpr ?_
    · have hclosed : (poolRule hub :: (forwardRules ++ tailRules)).map kind =
        (poolRule demoHub :: (forwardRules ++ tailRules)).map kind := rfl
      rw [hclosed]
      decide
    · intro r
      simp only [fixedRules, forwardRules, tailRules, List.mem_cons, List.mem_append, List.not_mem_nil, or_false]
      tauto
  have hfixed : fixed env hub = {env.stored (poolRule hub)} + ((forwardRules.map env.stored : List IptRule) +
      optionalRules env) := by
    rw [fixed, Multiset.coe_eq_coe.mpr (hperm.map env.stored), List.map_cons, List.map_append, ← Multiset.cons_coe,
      ← Multiset.coe_add, optionalRules, Multiset.singleton_add]
  rw [deletedBy_down, hfixed, strictRules, Multiset.add_assoc, Multiset.add_assoc, Multiset.add_assoc,
    Multiset.add_assoc]
  refine congrArg _ ?_
  rw [← Multiset.add_assoc, Multiset.add_comm]

/-! ### Counting -/

theorem namedBy_sum (ls : List (Script.Line Cmd)) (r : IptRule) :
    (ls.map fun l => (namedBy env [l]).count r).sum = (namedBy env ls).count r := by
  induction ls with
  | nil => rfl
  | cons l ls ih => rw [List.map_cons, List.sum_cons, ih, namedBy_cons l ls, Multiset.count_add]

/-- Of the rules an `ip` line changes nothing. -/
theorem hostExec_rules (c : Cmd) (s : HostState) : (env.hostExec c s).1.rules = (env.exec c s.rules).1 := by
  cases c with
  | ip args =>
    show ((ipCommand (ipWords args) s.net).elim s fun k => { s with net := k }).rules = s.rules
    cases ipCommand (ipWords args) s.net <;> rfl
  | sysctl | add | delete | xkeen => rfl

/-- A line adds at most the rule that it names. -/
theorem hostExec_gains (l : Script.Line Cmd) (s : HostState) (r : IptRule) :
    (env.hostExec l.cmd s).1.rules.count r ≤ s.rules.count r + (namedBy env [l]).count r := by
  have hle := Multiset.le_iff_count.mp (@addedBy_le_namedBy env [l]) r
  have hexec := @exec_gains_addedBy env l s.rules r
  rw [hostExec_rules]
  omega

/-- A line for going up that succeeds has added its rule, unless the proxy's rule was there. -/
theorem hostExec_adds {l : Script.Line Cmd} (hl : l ∈ strictUp hub n reach) (hok : (env.hostExec l.cmd s).2 = true)
    (r : IptRule) : s.rules.count r + (namedBy env [l]).count r ≤ (env.hostExec l.cmd s).1.rules.count r := by
  have hadd : ∀ r₀ atHead, l = strict (.add atHead r₀) →
      s.rules.count r + (namedBy env [l]).count r ≤ (env.hostExec l.cmd s).1.rules.count r := by
    rintro r₀ atHead rfl
    have hinstalls : env.installs r₀ = true := by
      by_contra hno
      have hfails : (env.hostExec (.add atHead r₀) s).2 = false := by
        simp [Env.hostExec, Env.exec, hno]
      exact absurd (hok.symm.trans hfails) (by simp)
    have hrules : (env.hostExec (.add atHead r₀) s).1.rules = env.stored r₀ ::ₘ s.rules := by
      rw [hostExec_rules]
      simp [Env.exec, hinstalls]
    show _ ≤ (env.hostExec (.add atHead r₀) s).1.rules.count r
    rw [hrules, Multiset.count_cons, ← Multiset.count_singleton]
    exact Nat.le_refl _
  rcases List.mem_cons.mp hl with rfl | hl
  · exact Nat.le_refl _
  · rcases List.mem_append.mp hl with hl | hl <;> obtain ⟨r₀, -, rfl⟩ := List.mem_map.mp hl
    · exact hadd r₀ false rfl
    · exact hadd r₀ true rfl

/-- A line that deletes nothing keeps every rule. -/
theorem hostExec_keeps {l : Script.Line Cmd} (hdel : deletedRule l.cmd = none) (s : HostState) (r : IptRule) :
    s.rules.count r ≤ (env.hostExec l.cmd s).1.rules.count r := by
  rw [hostExec_rules]
  obtain ⟨tolerated, cmd⟩ := l
  cases cmd with
  | sysctl a | ip a => exact Nat.le_refl _
  | delete r' => exact absurd hdel (by simp [deletedRule])
  | add atHead r' =>
    simp only [Env.exec]
    split
    · exact Multiset.count_le_count_cons ..
    · exact Nat.le_refl _
  | xkeen atHead r' =>
    simp only [Env.exec]
    split
    · split
      · exact Nat.le_refl _
      · exact Multiset.count_le_count_cons ..
    · exact Nat.le_refl _

/-- **After a bring-up** every rule is there at least as often as strict lines name it, and at most as often as
    lines do, beside what was there before. -/
theorem count_bringUp (hok : (env.bringUp broken (nodeHooks hub n reach) s).2 = true) (r : IptRule) :
    s.rules.count r + (strictRules env hub n reach).count r ≤
        (env.bringUp broken (nodeHooks hub n reach) s).1.rules.count r ∧
      (env.bringUp broken (nodeHooks hub n reach) s).1.rules.count r ≤
        s.rules.count r + (strictRules env hub n reach + optionalRules env).count r := by
  have hlines : lines true (nodeHooks hub n reach) = strictUp hub n reach ++ upTail hub n := lines_up_split
  unfold Env.bringUp at hok ⊢
  constructor
  -- from below: the strict lines have all succeeded, and no line for going up deletes a rule
  · let gain (l : Script.Line Cmd) : Nat := if l.tolerated then 0 else (namedBy env [l]).count r
    have hsum : ((Script.numbered (lines true (nodeHooks hub n reach))).map
        fun l => gain ⟨l.tolerated, l.cmd.1⟩).sum = (strictRules env hub n reach).count r := by
      have hstrict : (strictUp hub n reach).map gain = (strictUp hub n reach).map fun l => (namedBy env [l]).count r :=
        List.map_congr_left fun l hl => if_neg (by simp [strictUp_strict l hl])
      have htail : ((upTail hub n).map gain).sum = 0 := by
        rw [List.map_congr_left (g := fun _ => 0) fun l hl => if_pos (upTail_tolerated l hl)]
        simp
      rw [Script.map_numbered gain, hlines, List.map_append, List.sum_append, hstrict, htail, namedBy_sum,
        namedBy_strictUp, Nat.add_zero]
    rw [← hsum]
    refine Script.run_atLeast (f := fun s : HostState => s.rules.count r) (fun l hl s hl' => ?_) hok
    have hmem := Script.mem_numbered hl
    rw [hlines, List.mem_append] at hmem
    unfold Script.hampered at hl' ⊢
    rcases hmem with hmem | hmem
    · have hnot : l.tolerated = false := strictUp_strict _ hmem
      split at hl'
      · exact absurd hl' (by simp [hnot])
      · rename_i hbroken
        rw [if_neg hbroken]
        have hadds := hostExec_adds hmem (hl'.resolve_right (by simp [hnot])) r
        simpa [gain, hnot] using hadds
    · have htol : l.tolerated = true := upTail_tolerated _ hmem
      have hkeeps : s.rules.count r ≤ (env.hostExec l.cmd.1 s).1.rules.count r :=
        hostExec_keeps (upTail_deletes_nothing _ hmem) s r
      split
      · simp [gain, htol]
      · simpa [gain, htol] using hkeeps
  -- from above: no line adds more than the rule it names, whether it succeeds or not
  · have hsum : ((Script.numbered (lines true (nodeHooks hub n reach))).map
        fun l => (namedBy env [⟨l.tolerated, l.cmd.1⟩]).count r).sum =
        (strictRules env hub n reach + optionalRules env).count r := by
      rw [Script.map_numbered fun l => (namedBy env [l]).count r, namedBy_sum, hlines, namedBy_append,
        namedBy_strictUp, namedBy_upTail]
    rw [← hsum]
    refine Script.run_gains (f := fun s : HostState => s.rules.count r) fun l s => ?_
    unfold Script.hampered
    split
    · exact Nat.le_add_right _ _
    · exact hostExec_gains ⟨l.tolerated, l.cmd.1⟩ s r

/-- The rules that tolerated `PostUp` lines are there to add are not there. -/
def RulesFresh (env : Env) (conf : List Hook) (s : HostState) : Prop :=
  ∀ l ∈ lines true conf, l.tolerated = true → ∀ r ∈ addedRule l.cmd, env.stored r ∉ s.rules

/-- On a fresh host no optional rule is there yet. -/
theorem optional_fresh (h : RulesFresh env (nodeHooks hub n reach) s) {r : IptRule} (hr : r ∈ optionalRules env) :
    s.rules.count r = 0 := by
  obtain ⟨r₀, hr₀, rfl⟩ := List.mem_map.mp (Multiset.mem_coe.mp hr)
  rw [← @upTail_adds hub n] at hr₀
  obtain ⟨l, hl, hadded⟩ := List.mem_filterMap.mp hr₀
  have hline : l ∈ lines true (nodeHooks hub n reach) := by
    rw [lines_up_split]
    exact List.mem_append_right _ hl
  exact Multiset.count_eq_zero.mpr (h l hline (upTail_tolerated l hl) r₀ hadded)

/-- A strict deletion finds its rule: no tolerated line is there for it. -/
theorem strict_not_optional {r : IptRule} (hr : r ∈ forwardRules ++ [poolRule hub] ∨ ∃ p ∈ reach, r = reachRule n p) :
    env.stored r ∉ optionalRules env := by
  intro hmem
  obtain ⟨r₀, hr₀, he⟩ := List.mem_map.mp (Multiset.mem_coe.mp hmem)
  obtain ⟨hforward, hpool, hreach⟩ := @tail_kinds hub r₀ hr₀
  have hkind : kind r₀ = kind r := kind_eq he
  rcases hr with hr | ⟨p, -, rfl⟩
  · rcases List.mem_append.mp hr with hr | hr
    · exact hforward (hkind ▸ List.mem_map_of_mem hr)
    · rw [List.mem_singleton] at hr
      exact hpool (hr ▸ hkind)
  · exact hreach hkind

/-- The strict lines of a teardown delete rules. -/
theorem strict_deletes : ∀ l ∈ lines false (nodeHooks hub n reach), l.tolerated = false → ∃ r, l.cmd = .delete r := by
  intro l hl hstrict
  rw [lines_down] at hl
  rcases List.mem_append.mp hl with hl | hl
  · rcases List.mem_append.mp hl with hl | hl
    · simp only [downHead, List.mem_cons, List.not_mem_nil, or_false] at hl
      rcases hl with rfl | rfl | rfl | rfl <;> exact ⟨_, rfl⟩
    · obtain ⟨p, -, rfl⟩ := List.mem_map.mp hl
      exact ⟨_, rfl⟩
  · rcases List.mem_cons.mp hl with rfl | hl
    · exact ⟨_, rfl⟩
    · rcases List.mem_cons.mp hl with rfl | hl
      · exact ⟨_, rfl⟩
      · exact absurd (exit_tolerated l hl) (by simp [hstrict])

/-- **The rules** are as before the bring-up, and no strict deletion fails. -/
theorem takeDown_rules (hfresh : RulesFresh env (nodeHooks hub n reach) s)
    (hok : (env.bringUp broken (nodeHooks hub n reach) s).2 = true) :
    (env.takeDown (nodeHooks hub n reach) (env.bringUp broken (nodeHooks hub n reach) s).1).2 = true ∧
      (env.takeDown (nodeHooks hub n reach) (env.bringUp broken (nodeHooks hub n reach) s).1).1.rules = s.rules := by
  have hcount := count_bringUp hok
  generalize (env.bringUp broken (nodeHooks hub n reach) s).1 = up at hcount
  -- where no tolerated line is there for a rule the two bounds of its count meet
  have hexact : ∀ r, r ∉ optionalRules env →
      up.rules.count r = s.rules.count r + (strictRules env hub n reach + optionalRules env).count r := by
    intro r hr
    obtain ⟨hlow, hhigh⟩ := hcount r
    rw [Multiset.count_add, Multiset.count_eq_zero.mpr hr] at hhigh ⊢
    omega
  have hrun : Script.run env.exec (lines false (nodeHooks hub n reach)) up.rules =
      (up.rules - deletedBy env (lines false (nodeHooks hub n reach)), true) := by
    refine run_deletedBy down_deletes fun l hl hstrict r hr => ?_
    rw [deletedBy_eq, hexact _ (strict_not_optional (strict_down hl hstrict hr))]
    exact Nat.le_add_left _ _
  have hpart : (env.takeDown (nodeHooks hub n reach) up).1.rules =
        (Script.run env.exec (lines false (nodeHooks hub n reach)) up.rules).1 ∧
      (env.takeDown (nodeHooks hub n reach) up).2 =
        (Script.run env.exec (lines false (nodeHooks hub n reach)) up.rules).2 := by
    refine Script.run_map (fun l _ s => hostExec_rules l.cmd s) fun l hl hstrict s => ?_
    obtain ⟨r, hr⟩ := strict_deletes l hl hstrict
    rw [hr]
    rfl
  rw [hrun] at hpart
  refine ⟨hpart.2, hpart.1.trans (Multiset.ext.mpr fun r => ?_)⟩
  rw [deletedBy_eq, Multiset.count_sub]
  by_cases hr : r ∈ optionalRules env
  -- there were none before, so deleting what may have been added leaves none
  · have hzero := optional_fresh hfresh hr
    have hhigh := (hcount r).2
    omega
  · rw [hexact r hr]
    omega

/-! ## Network -/

/-- The rule of the exit, as `ip rule add` makes it. -/
def exitPolicy : PolicyRule := ⟨1330, some nodeExitMark, "", nodeExitTable⟩

/-- What a bring-up may add to a network: the exit's device, routes in its table, its rule. -/
structure Extends (k₀ k : HostNet) : Prop where
  devices : k.devices.filter (fun d => d.name ≠ nodeExitDev) = k₀.devices
  routes : k.routes.filter (fun r => r.table ≠ nodeExitTable) = k₀.routes
  policy : k.policy.filter (fun r => r.fwmark ≠ some nodeExitMark) = k₀.policy
  own : ∀ r ∈ k.policy, r.fwmark = some nodeExitMark → r = exitPolicy
  once : k.policy.count exitPolicy ≤ 1

/-- The exit's device, table and mark are not there. -/
structure NetFresh (k : HostNet) : Prop where
  devices : ∀ d ∈ k.devices, d.name ≠ nodeExitDev
  routes : ∀ r ∈ k.routes, r.table ≠ nodeExitTable
  policy : ∀ r ∈ k.policy, r.fwmark ≠ some nodeExitMark

variable {k k₀ k' : HostNet}

/-- A host without the exit's parts extends itself. -/
theorem extends_refl (h : NetFresh k) : Extends k k where
  devices := List.filter_eq_self.mpr fun d hd => decide_eq_true (h.devices d hd)
  routes := List.filter_eq_self.mpr fun r hr => decide_eq_true (h.routes r hr)
  policy := List.filter_eq_self.mpr fun r hr => decide_eq_true (h.policy r hr)
  own := fun r hr he => absurd he (h.policy r hr)
  once := by
    rw [List.count_eq_zero_of_not_mem fun hmem => h.policy _ hmem rfl]
    exact Nat.zero_le _

/-- Adding the exit's device changes nothing else. -/
theorem extends_addDevice {tunnel : Option (String × String)} {up : Bool} {addrs : List String}
    (h : Extends k₀ k) : Extends k₀ (k.addDevice ⟨nodeExitDev, tunnel, up, addrs⟩) := by
  refine ⟨?_, h.routes, h.policy, h.own, h.once⟩
  show (k.devices ++ [_]).filter _ = _
  rw [List.filter_append, h.devices, List.filter_cons_of_neg (by simp), List.filter_nil, List.append_nil]

/-- A change to the exit's device changes nothing else. -/
theorem extends_editDevice {up : Bool} {addr : Option String} (h : Extends k₀ k) :
    Extends k₀ (k.editDevice nodeExitDev up addr) := by
  refine ⟨?_, h.routes, h.policy, h.own, h.once⟩
  rw [← h.devices]
  show (k.devices.map _).filter _ = _
  generalize k.devices = ds
  induction ds with
  | nil => rfl
  | cons d ds ih =>
    rw [List.map_cons]
    by_cases hd : d.name = nodeExitDev
    · rw [if_pos hd, List.filter_cons_of_neg (by simpa using hd), List.filter_cons_of_neg (by simpa using hd), ih]
    · rw [if_neg hd, List.filter_cons_of_pos (by simpa using hd), List.filter_cons_of_pos (by simpa using hd), ih]

/-- A route in the exit's table changes nothing else. -/
theorem extends_replaceRoute {dest dev : String} {hdev : dev ∈ k.devices.map Device.name} (h : Extends k₀ k) :
    Extends k₀ (k.replaceRoute ⟨nodeExitTable, dest, dev⟩ hdev) := by
  refine ⟨h.devices, ?_, h.policy, h.own, h.once⟩
  show (k.routes.filter _ ++ [_]).filter _ = _
  rw [List.filter_append, List.filter_cons_of_neg (by simp), List.filter_nil, List.append_nil, List.filter_filter,
    ← h.routes]
  refine List.filter_congr fun r _ => ?_
  by_cases hr : r.table = nodeExitTable <;> simp [hr]

/-- The one rule for the exit's mark changes nothing else. -/
theorem extends_addPolicy (hnew : exitPolicy ∉ k.policy) (h : Extends k₀ k) :
    Extends k₀ (k.addPolicy exitPolicy) := by
  refine ⟨h.devices, h.routes, ?_, fun r hr he => ?_, ?_⟩
  · rw [← h.policy]
    show (k.policy.orderedInsert _ _).filter _ = _
    rw [List.orderedInsert_eq_take_drop, List.filter_append, List.filter_cons_of_neg (by simp [exitPolicy]),
      ← List.filter_append, List.takeWhile_append_dropWhile]
  · rcases (List.mem_orderedInsert _).mp hr with rfl | hr
    · rfl
    · exact h.own r hr he
  · show (k.policy.orderedInsert _ _).count exitPolicy ≤ 1
    rw [List.orderedInsert_count, List.count_eq_zero_of_not_mem hnew]
    simp

/-! ### Lines -/

/-- The words of an argument string are found blank by blank. -/
theorem ipWords_eq {args : String} {a b : List Char} (h : args.toList = a ++ ' ' :: b) :
    ipWords args = (a.splitOn ' ').map String.ofList ++ (b.splitOn ' ').map String.ofList := by
  rw [ipWords, h, List.splitOn_append_cons_self, List.map_append]

/-- What `ip` is called with, if it is. -/
def ipArgs : Cmd → Option String
  | .ip args => some args
  | _ => none

/-- The `ip` lines for going up. -/
def upArgs (hub : Hub) (n : Node) : List String :=
  ["link add " ++ nodeExitDev ++ " type ipip local " ++ n.address.text ++ " remote " ++ hub.address.text,
    "addr replace " ++ n.address.text ++ "/32 dev " ++ nodeExitDev, "link set " ++ nodeExitDev ++ " up",
    "rule add " ++ ("fwmark " ++ nodeExitMark ++ " lookup " ++ nodeExitTable ++ " pref " ++ nodeExitPref),
    "route replace default dev " ++ nodeExitDev ++ " table " ++ nodeExitTable]

/-- The `ip` commands of a `PostUp` are those of the list. -/
theorem mem_upArgs {l : Script.Line Cmd} {args : String} (hl : l ∈ lines true (nodeHooks hub n reach))
    (hargs : l.cmd = .ip args) : args ∈ upArgs hub n := by
  rw [lines_up_split, List.mem_append] at hl
  rcases hl with hl | hl
  · exfalso
    rcases List.mem_cons.mp hl with rfl | hl
    · exact absurd hargs (by simp [strict])
    · rcases List.mem_append.mp hl with hl | hl <;> obtain ⟨r, -, rfl⟩ := List.mem_map.mp hl <;>
        exact absurd hargs (by simp [strict])
  · have htail : (upTail hub n).filterMap (fun l => ipArgs l.cmd) = upArgs hub n := rfl
    rw [← htail]
    exact List.mem_filterMap.mpr ⟨l, hl, by rw [hargs]; rfl⟩

/-- The `ip` commands of the exit keep to its own device, table and mark. -/
theorem extends_linkAdd {args : List String}
    (hk : linkAdd ("ipip-hub" :: args) k = some k') (h : Extends k₀ k) : Extends k₀ k' := by
  unfold linkAdd at hk
  split at hk
  · rename_i dev near far heq
    obtain ⟨rfl, -⟩ := List.cons.inj heq
    split at hk
    · exact absurd hk (by simp)
    · obtain rfl := Option.some.inj hk
      exact extends_addDevice h
  · exact absurd hk (by simp)

theorem extends_addrReplace {args : List String} (hk : addrReplace (args ++ ["dev", "ipip-hub"]) k = some k')
    (h : Extends k₀ k) : Extends k₀ k' := by
  unfold addrReplace at hk
  split at hk
  · rename_i addr dev heq
    have hdev : some "ipip-hub" = some dev := by
      have hlast := congrArg List.getLast? heq
      simpa using hlast
    obtain rfl := Option.some.inj hdev
    split at hk
    · obtain rfl := Option.some.inj hk
      exact extends_editDevice h
    · exact absurd hk (by simp)
  · exact absurd hk (by simp)

theorem extends_linkSet (hk : linkSet ["ipip-hub", "up"] k = some k') (h : Extends k₀ k) : Extends k₀ k' := by
  unfold linkSet at hk
  simp only at hk
  split at hk
  · obtain rfl := Option.some.inj hk
    exact extends_editDevice h
  · exact absurd hk (by simp)

theorem policyRule_exit : policyRule ["fwmark", "0x33", "lookup", "133", "pref", "1330"] = some exitPolicy := by
  decide +kernel

theorem extends_ruleAdd (hk : ruleAdd ["fwmark", "0x33", "lookup", "133", "pref", "1330"] k = some k')
    (h : Extends k₀ k) : Extends k₀ k' := by
  rw [ruleAdd, policyRule_exit, Option.bind_some] at hk
  split at hk
  · exact absurd hk (by simp)
  · rename_i hnew
    obtain rfl := Option.some.inj hk
    exact extends_addPolicy hnew h

theorem extends_routeReplace (hk : routeReplace ["default", "dev", "ipip-hub", "table", "133"] k = some k')
    (h : Extends k₀ k) : Extends k₀ k' := by
  unfold routeReplace at hk
  simp only at hk
  split at hk
  · obtain rfl := Option.some.inj hk
    exact extends_replaceRoute h
  · exact absurd hk (by simp)

/-- Each of these lines touches the exit's device, table or rule only. -/
theorem extends_upArgs {args : String} (hargs : args ∈ upArgs hub n) (hk : ipCommand (ipWords args) k = some k')
    (h : Extends k₀ k) : Extends k₀ k' := by
  simp only [upArgs, List.mem_cons, List.not_mem_nil, or_false] at hargs
  rcases hargs with rfl | rfl | rfl | rfl | rfl
  · -- the addresses stand behind the words that name the device
    have hwords : ∃ rest, ipWords ("link add " ++ nodeExitDev ++ " type ipip local " ++ n.address.text ++ " remote " ++
        hub.address.text) = "link" :: "add" :: "ipip-hub" :: rest := by
      have hhead : ("link add ipip-hub".toList.splitOn ' ').map String.ofList = ["link", "add", "ipip-hub"] := by
        decide +kernel
      refine ⟨_, (ipWords_eq (a := "link add ipip-hub".toList) (b := "type ipip local ".toList ++
        (n.address.text.toList ++ (" remote ".toList ++ hub.address.text.toList))) ?_).trans (by rw [hhead]; rfl)⟩
      simp only [String.toList_append, List.append_assoc]
      rfl
    obtain ⟨rest, hwords⟩ := hwords
    rw [hwords] at hk
    exact extends_linkAdd hk h
  · -- here the address stands between them
    have hwords : ∃ mid, ipWords ("addr replace " ++ n.address.text ++ "/32 dev " ++ nodeExitDev) =
        "addr" :: "replace" :: (mid ++ ["dev", "ipip-hub"]) := by
      have hhead : ("addr replace".toList.splitOn ' ').map String.ofList = ["addr", "replace"] := by decide +kernel
      have hlast : ("dev ipip-hub".toList.splitOn ' ').map String.ofList = ["dev", "ipip-hub"] := by decide +kernel
      refine ⟨((n.address.text.toList ++ "/32".toList).splitOn ' ').map String.ofList,
        (ipWords_eq (a := "addr replace".toList) (b := (n.address.text.toList ++ "/32".toList) ++
          ' ' :: "dev ipip-hub".toList) ?_).trans ?_⟩
      · simp only [String.toList_append, List.append_assoc]
        rfl
      · rw [hhead, List.splitOn_append_cons_self, List.map_append, hlast]
        rfl
    obtain ⟨mid, hwords⟩ := hwords
    rw [hwords] at hk
    exact extends_addrReplace hk h
  · have hwords : ipWords ("link set " ++ nodeExitDev ++ " up") = ["link", "set", "ipip-hub", "up"] := by
      decide +kernel
    rw [hwords] at hk
    exact extends_linkSet hk h
  · have hwords : ipWords ("rule add " ++ ("fwmark " ++ nodeExitMark ++ " lookup " ++ nodeExitTable ++ " pref " ++
        nodeExitPref)) = ["rule", "add", "fwmark", "0x33", "lookup", "133", "pref", "1330"] := by
      decide +kernel
    rw [hwords] at hk
    exact extends_ruleAdd hk h
  · have hwords : ipWords ("route replace default dev " ++ nodeExitDev ++ " table " ++ nodeExitTable) =
        ["route", "replace", "default", "dev", "ipip-hub", "table", "133"] := by
      decide +kernel
    rw [hwords] at hk
    exact extends_routeReplace hk h

/-- What a line does to the network. -/
def netStep (k : HostNet) (l : Script.Line Cmd) : HostNet :=
  ((ipArgs l.cmd).bind fun args => ipCommand (ipWords args) k).getD k

/-- What a line does to the host's network, by its `ip` command. -/
theorem hostExec_net (l : Script.Line Cmd) (s : HostState) : (env.hostExec l.cmd s).1.net = netStep s.net l := by
  obtain ⟨tolerated, cmd⟩ := l
  cases cmd with
  | ip args =>
    show ((ipCommand (ipWords args) s.net).elim s fun k => { s with net := k }).net = _
    rw [netStep, ipArgs, Option.bind_some]
    cases ipCommand (ipWords args) s.net <;> rfl
  | sysctl | add | delete | xkeen => rfl

/-- So whatever fails on the way, bringing a file up leaves the rest of the network alone. -/
theorem extends_bringUp (h : NetFresh s.net) :
    Extends s.net (env.bringUp broken (nodeHooks hub n reach) s).1.net := by
  refine Script.run_invariant (I := fun s' : HostState => Extends s.net s'.net) (fun l hl s' hs' => ?_) (extends_refl h)
  unfold Script.hampered
  split
  · exact hs'
  · have hnet : (env.hostExec l.cmd.1 s').1.net = netStep s'.net ⟨l.tolerated, l.cmd.1⟩ :=
      hostExec_net ⟨l.tolerated, l.cmd.1⟩ s'
    show Extends s.net (env.hostExec l.cmd.1 s').1.net
    rw [hnet, netStep]
    cases hargs : l.cmd.1 with
    | ip args =>
      rw [ipArgs, Option.bind_some]
      cases hk : ipCommand (ipWords args) s'.net with
      | none => exact hs'
      | some k => exact extends_upArgs (mem_upArgs (Script.mem_numbered hl) hargs) hk hs'
    | sysctl | add | delete | xkeen => exact hs'

/-! ### Taking it down -/

/-- The `ip` lines for going down. -/
def downArgs : List String :=
  ["route flush table " ++ nodeExitTable,
    "rule del " ++ ("fwmark " ++ nodeExitMark ++ " lookup " ++ nodeExitTable ++ " pref " ++ nodeExitPref),
    "link del " ++ nodeExitDev]

/-- The `ip` commands of a `PostDown`. -/
theorem downArgs_eq : (lines false (nodeHooks hub n reach)).filterMap (fun l => ipArgs l.cmd) = downArgs := by
  have hreach : (reach.map fun s => strict (.delete (reachRule n s))).filterMap (fun l => ipArgs l.cmd) = [] := by
    rw [List.filterMap_map]
    exact List.filterMap_eq_nil_iff.mpr fun _ _ => rfl
  rw [lines_down, List.filterMap_append, List.filterMap_append, hreach]
  rfl

/-- Only the `ip` commands of the lines change the network. -/
theorem foldl_netStep (ls : List (Script.Line Cmd)) (k : HostNet) :
    ls.foldl netStep k =
      (ls.filterMap fun l => ipArgs l.cmd).foldl (fun k args => (ipCommand (ipWords args) k).getD k) k := by
  induction ls generalizing k with
  | nil => rfl
  | cons l ls ih =>
    rw [List.foldl_cons, ih, List.filterMap_cons, netStep]
    cases ipArgs l.cmd <;> rfl

/-- Deleting the first of at most one is filtering. -/
theorem eraseP_eq_filter {α : Type} {p q : α → Bool} {l : List α} (hsame : ∀ a ∈ l, p a = !q a)
    (hone : (l.filter p).length ≤ 1) : l.eraseP p = l.filter q := by
  induction l with
  | nil => rfl
  | cons a l ih =>
    have ha := hsame a List.mem_cons_self
    have hl := fun b hb => hsame b (List.mem_cons_of_mem a hb)
    cases hp : p a with
    | true =>
      rw [List.filter_cons_of_pos hp, List.length_cons] at hone
      have hnone : l.filter p = [] := List.length_eq_zero_iff.mp (by omega)
      rw [List.eraseP_cons_of_pos hp, List.filter_cons_of_neg (by simpa [hp] using ha)]
      refine (List.filter_eq_self.mpr fun b hb => ?_).symm
      have hb' := List.filter_eq_nil_iff.mp hnone b hb
      simpa [hl b hb] using hb'
    | false =>
      rw [List.filter_cons_of_neg (by simp [hp])] at hone
      rw [List.eraseP_cons_of_neg (by simp [hp]), List.filter_cons_of_pos (by simpa [hp] using ha), ih hl hone]

/-- Deleting the exit's rule takes away all rules for its mark, since there is one at most. -/
theorem ruleDel_exit (hown : ∀ r ∈ k.policy, r.fwmark = some nodeExitMark → r = exitPolicy)
    (honce : k.policy.count exitPolicy ≤ 1) :
    (ruleDel ["fwmark", "0x33", "lookup", "133", "pref", "1330"] k).getD k =
      { k with policy := k.policy.filter fun r => r.fwmark ≠ some nodeExitMark } := by
  let p := fun x : PolicyRule =>
    decide (x.pref = exitPolicy.pref ∧ x.fwmark = exitPolicy.fwmark ∧ x.table = exitPolicy.table)
  have hp : ∀ r ∈ k.policy, p r = !decide (r.fwmark ≠ some nodeExitMark) := by
    intro r hr
    by_cases hmark : r.fwmark = some nodeExitMark
    · rw [hown r hr hmark]
      rfl
    · simp [p, exitPolicy, hmark]
  have hsame : ∀ r ∈ k.policy, p r = (r == exitPolicy) := by
    intro r hr
    rw [Bool.eq_iff_iff, hp r hr, beq_iff_eq]
    constructor
    · intro hmark
      exact hown r hr (by simpa using hmark)
    · rintro rfl
      rfl
  have hone : (k.policy.filter p).length ≤ 1 := by
    rw [List.filter_congr hsame, ← List.count_eq_length_filter]
    exact honce
  rw [ruleDel, policyRule_exit, Option.bind_some]
  show (if k.policy.any p then some (k.deletePolicy p) else none).getD k = _
  have hfilter := eraseP_eq_filter hp hone
  split
  · refine HostNet.ext rfl rfl ?_
    exact hfilter
  · rename_i hnone
    rw [List.any_eq_true, not_exists] at hnone
    have hkept : k.policy.eraseP p = k.policy := List.eraseP_of_forall_not fun r hr hp => hnone r ⟨hr, hp⟩
    exact HostNet.ext rfl rfl (hkept.symm.trans hfilter)

/-- A device that is not there is deleted all the same: it has no routes. -/
theorem linkDel_exit : (linkDel ["ipip-hub"] k).getD k = k.deleteDevice nodeExitDev := by
  show (if nodeExitDev ∈ k.devices.map Device.name then some (k.deleteDevice nodeExitDev) else none).getD k = _
  split
  · rfl
  · rename_i hnone
    refine HostNet.ext ?_ ?_ rfl
    · have hkeep : ∀ d ∈ k.devices, d.name ≠ nodeExitDev := fun d hd he => hnone (he ▸ List.mem_map_of_mem hd)
      exact (List.filter_eq_self.mpr fun d hd => by simpa using hkeep d hd).symm
    · have hkeep : ∀ r ∈ k.routes, r.dev ≠ nodeExitDev := fun r hr he => hnone (he ▸ k.routes_dev r hr)
      exact (List.filter_eq_self.mpr fun r hr => by simpa using hkeep r hr).symm

/-- **The network** is as before the bring-up. -/
theorem downArgs_net (hfresh : NetFresh k₀) (h : Extends k₀ k) :
    downArgs.foldl (fun k args => (ipCommand (ipWords args) k).getD k) k = k₀ := by
  have hflush : ipWords ("route flush table " ++ nodeExitTable) = ["route", "flush", "table", "133"] := by
    decide +kernel
  have hrule : ipWords ("rule del " ++ ("fwmark " ++ nodeExitMark ++ " lookup " ++ nodeExitTable ++ " pref " ++
      nodeExitPref)) = ["rule", "del", "fwmark", "0x33", "lookup", "133", "pref", "1330"] := by
    decide +kernel
  have hlink : ipWords ("link del " ++ nodeExitDev) = ["link", "del", "ipip-hub"] := by decide +kernel
  rw [downArgs, List.foldl_cons, List.foldl_cons, List.foldl_cons, List.foldl_nil, hflush, hrule, hlink]
  show (linkDel ["ipip-hub"] ((ruleDel _ (k.flushTable nodeExitTable)).getD (k.flushTable nodeExitTable))).getD
    ((ruleDel _ (k.flushTable nodeExitTable)).getD (k.flushTable nodeExitTable)) = k₀
  have hdel := ruleDel_exit (k := k.flushTable nodeExitTable) h.own h.once
  -- a deletion that fails finds nothing to delete, so each leaves what a filter leaves
  rw [linkDel_exit, hdel]
  refine HostNet.ext h.devices ?_ h.policy
  show (k.routes.filter _).filter _ = _
  rw [h.routes]
  have hkeep : ∀ r ∈ k₀.routes, r.dev ≠ nodeExitDev := by
    intro r hr he
    obtain ⟨d, hd, hname⟩ := List.mem_map.mp (k₀.routes_dev r hr)
    exact hfresh.devices d hd (hname.trans he)
  exact List.filter_eq_self.mpr fun r hr => by simpa using hkeep r hr

/-- Taking the file down leaves the network as it was before it came up. -/
theorem takeDown_net (hfresh : NetFresh k₀) (h : Extends k₀ s.net)
    (hok : (env.takeDown (nodeHooks hub n reach) s).2 = true) :
    (env.takeDown (nodeHooks hub n reach) s).1.net = k₀ := by
  have hfold : (env.takeDown (nodeHooks hub n reach) s).1.net =
      (lines false (nodeHooks hub n reach)).foldl netStep s.net := by
    rw [Env.takeDown, Script.run_eq_foldl hok]
    exact (List.foldl_hom HostState.net fun s l => (hostExec_net l s).symm).symm
  rw [hfold, foldl_netStep, downArgs_eq]
  exact downArgs_net hfresh h

/-! ## Result -/

/-- **A teardown undoes a bring-up.** On a host where nothing of the exit is there and no rule of a tolerated line,
    and whatever of its lines fail: when every strict `PostUp` line succeeds, no strict `PostDown` line fails, and
    rules, policy rules, routes and devices are as they were. -/
theorem takeDown_bringUp (env : Env) (broken : Nat → Bool) (hub : Hub) (n : Node) (reach : List Prefix)
    (s : HostState) (hnet : NetFresh s.net) (hrules : RulesFresh env (nodeHooks hub n reach) s)
    (hup : (env.bringUp broken (nodeHooks hub n reach) s).2 = true) :
    env.takeDown (nodeHooks hub n reach) (env.bringUp broken (nodeHooks hub n reach) s).1 = (s, true) := by
  obtain ⟨hok, hsame⟩ := takeDown_rules hrules hup
  exact Prod.ext (HostState.ext hsame (takeDown_net hnet (extends_bringUp hnet) hok)) hok

/-- A host with a LAN device, its route, the main rule and one iptables rule of its own. -/
def lanHost : HostState where
  rules := {acceptRule .input (some ⟨"eth0", false⟩) none}
  net :=
    { devices := [⟨"eth0", none, true, ["192.168.1.2/24"]⟩]
      routes := [⟨"main", "default", "eth0"⟩]
      policy := [⟨32766, none, "", "main"⟩]
      routes_dev := by decide }

/-- Neither the device nor the mark's rule can be made, and there is no proxy. -/
theorem takeDown_bringUp_lan :
    demoEnv.takeDown (nodeHooks demoHub demoNode [⟨.ofBytes 192 168 2 0, 24⟩])
      (demoEnv.bringUp (fun i => i = 8 ∨ i = 17) (nodeHooks demoHub demoNode [⟨.ofBytes 192 168 2 0, 24⟩]) lanHost).1 =
        (lanHost, true) := by
  refine takeDown_bringUp demoEnv _ demoHub demoNode _ lanHost ⟨?_, ?_, ?_⟩ ?_ ?_
  · decide
  · decide
  · decide
  · unfold RulesFresh
    decide +kernel
  · decide +kernel

end NodeAgent
end BeautyAwg
