import Mathlib.Data.Multiset.Filter
import BeautyAwg.NodeAgent.Firewall

/-!
# `NodeAgent.Correctness.Firewall`: what a pushed configuration leaves behind

The `PostDown` lines that run are those of the new file, against the rules of the old one. A file that links
no more than the first one did takes down what it knows and puts it back: the rules stay those of the first
file (`Aligned`). Any other one stops its teardown midway and leaves a rule twice for good (`Broken`).

## Contents
- **Kinds.** `kind` tells a node's rules apart whatever their names and sources.
- **Up and down.** `up_laid`, `down_laid`: from aligned rules; `count_down`, `count_up`: from any.
- **Pushes.** `push_aligned`, `push_breaks`, `push_broken`.
- **Results.** `fresh_iff`.
-/

namespace BeautyAwg
namespace NodeAgent

open Netip Awg
open Replace (replaceAll)

/-! ## Kinds -/

/-- What of a rule does not depend on names and sources. -/
structure Kind where
  table : IptTable
  chain : IptChain
  inIf : Option Bool
  outIf : Option Bool
  syn : Bool
  target : IptTarget
  deriving DecidableEq

/-- The kind of a rule. -/
def kind (r : IptRule) : Kind :=
  ⟨r.table, r.chain, r.inIf.map IfMatch.negated, r.outIf.map IfMatch.negated, r.syn, r.target⟩

variable {env : Env} {hub : Hub} {n : Node} {reach first : List Prefix} {m : Multiset IptRule}

@[simp] theorem kind_stored (r : IptRule) : kind (env.stored r) = kind r := by
  simp [kind, Env.stored, Option.map_map, Function.comp_def]

/-- The rules of every file of the node, in the order of its `PostDown` lines. -/
def fixedRules (hub : Hub) : List IptRule :=
  [inputRule, clampForward, clampOutput, poolRule hub, outOfTunnel, intoTunnel, exitClamp, exitRestore,
    exitMark, exitIn, exitOut, xkeenDSCP, xkeenMark]

/-- The ones that are added without having to be. -/
def tailRules : List IptRule :=
  [clampForward, clampOutput, exitIn, exitOut, exitMark, exitRestore, exitClamp, xkeenDSCP, xkeenMark]

/-- The rules that open the way between the tunnel and the rest. -/
def forwardRules : List IptRule := [outOfTunnel, intoTunnel, inputRule]

/-- The kind of a linked subnet's rule. -/
def reachKind : Kind := ⟨.nat, .postrouting, none, some false, false, .masquerade⟩

/-- The fixed rules are of different kinds. -/
theorem kinds_nodup : ((fixedRules hub).map kind).Nodup := by
  have hclosed : (fixedRules hub).map kind = (fixedRules demoHub).map kind := rfl
  rw [hclosed]
  decide

/-- None of them is of the kind of a linked subnet's rule. -/
theorem reachKind_not_mem : reachKind ∉ (fixedRules hub).map kind := by
  have hclosed : (fixedRules hub).map kind = (fixedRules demoHub).map kind := rfl
  rw [hclosed]
  decide

/-- The stored rules of the linked subnets, and those of every file. -/
def reachRules (env : Env) (n : Node) (reach : List Prefix) : Multiset IptRule :=
  (reach.map fun s => env.stored (reachRule n s) : List IptRule)

/-- The rules of every file, as they are stored. -/
def fixed (env : Env) (hub : Hub) : Multiset IptRule := ((fixedRules hub).map env.stored : List IptRule)

theorem kind_of_mem_reachRules {r : IptRule} (h : r ∈ reachRules env n reach) : kind r = reachKind := by
  obtain ⟨s, -, rfl⟩ := List.mem_map.mp (Multiset.mem_coe.mp h)
  rw [kind_stored]
  rfl

/-- So they stay different once they are stored. -/
theorem fixed_nodup : (fixed env hub).Nodup := by
  refine Multiset.coe_nodup.mpr (List.Nodup.of_map kind ?_)
  rw [List.map_map, show kind ∘ env.stored = kind from funext kind_stored]
  exact kinds_nodup

theorem kind_of_mem_fixed {r : IptRule} (h : r ∈ fixed env hub) : kind r ≠ reachKind := by
  obtain ⟨r₀, hr₀, rfl⟩ := List.mem_map.mp (Multiset.mem_coe.mp h)
  rw [kind_stored]
  exact fun he => @reachKind_not_mem hub (he ▸ List.mem_map_of_mem (f := kind) hr₀)

/-! ### Linked subnets -/

/-- A node's rules for linked subnets are as many as the subnets its rules can tell apart. -/
theorem reachRules_le_iff : reachRules env n reach ≤ reachRules env n first ↔ sources reach ≤ sources first := by
  let rule (p : Prefix) : IptRule := { env.stored (reachRule n p) with src := some p }
  have hmap : ∀ reach, reachRules env n reach = (sources reach).map rule := by
    intro reach
    rw [sources, Multiset.map_coe, List.map_map]
    rfl
  have hinj : Function.Injective rule := fun p q h => Option.some.inj (congrArg IptRule.src h)
  rw [hmap, hmap, Multiset.map_le_map_iff hinj]

/-- A list whose subnets are all in a list that the node takes is one that it takes. -/
theorem reachable_of_le (hfirst : ∀ s ∈ first, reachable env n s = true)
    (hle : sources reach ≤ sources first) : ∀ s ∈ reach, reachable env n s = true := by
  intro s hs
  obtain ⟨s', hs', he⟩ := List.mem_map.mp
    (Multiset.mem_coe.mp (Multiset.mem_of_le hle (Multiset.mem_coe.mpr (List.mem_map_of_mem hs))))
  have hfam : s'.is4 = s.is4 := by rw [← Prefix.is4_masked s', he, Prefix.is4_masked]
  have hreach := hfirst s' hs'
  rwa [reachable, hfam] at hreach

/-! ## Lines -/

/-- A command that must succeed. -/
def strict (cmd : Cmd) : Script.Line Cmd := ⟨false, cmd⟩

/-- A command that may fail. -/
def tolerant (cmd : Cmd) : Script.Line Cmd := ⟨true, cmd⟩

theorem lines_append {up : Bool} (a b : List Hook) : lines up (a ++ b) = lines up a ++ lines up b := by
  simp [lines]

/-- The `PostUp` lines after the ones that have to succeed. -/
def upTail (hub : Hub) (n : Node) : List (Script.Line Cmd) :=
  tolerant (.add false clampForward) :: tolerant (.add false clampOutput) :: lines true (exitHooks hub n)

/-- The `PostUp` lines: forwarding, the rules that have to be there, then those that may be missing. -/
theorem lines_up : lines true (nodeHooks hub n reach) =
    strict (.sysctl "net.ipv4.ip_forward=1") ::
      (([poolRule hub] ++ reach.map (reachRule n)).map (fun r => strict (.add false r)) ++
        (forwardRules.map (fun r => strict (.add true r)) ++ upTail hub n)) := by
  rw [nodeHooks, lines_append]
  simp [lines, lanHooks, upTail, forwardRules, postUp, postUpTolerated, postDown, postDownTolerated, List.filter_append,
    List.filter_map, Function.comp_def, strict, tolerant]

/-- The `PostDown` lines up to those of the linked subnets. -/
def downHead (hub : Hub) : List (Script.Line Cmd) :=
  [strict (.delete inputRule), tolerant (.delete clampForward), tolerant (.delete clampOutput),
    strict (.delete (poolRule hub))]

/-- The `PostDown` lines: the head, the linked subnets' rules, the tunnel's two rules and the exit's lines. -/
theorem lines_down : lines false (nodeHooks hub n reach) =
    downHead hub ++ reach.map (fun s => strict (.delete (reachRule n s))) ++
      (strict (.delete outOfTunnel) :: strict (.delete intoTunnel) :: lines false (exitHooks hub n)) := by
  rw [nodeHooks, lines_append]
  simp [lines, lanHooks, downHead, postUp, postUpTolerated, postDown, postDownTolerated, List.filter_append,
    List.filter_map, Function.comp_def, strict, tolerant]

/-- A line for the exit may fail. -/
theorem exit_tolerated {up : Bool} : ∀ l ∈ lines up (exitHooks hub n), l.tolerated = true := by
  have hall : ∀ h ∈ exitHooks hub n, h.tolerated = true := by
    simp [exitHooks, postUpTolerated, postDownTolerated]
  intro l hl
  obtain ⟨h, hh, rfl⟩ := List.mem_map.mp hl
  exact hall h (List.mem_filter.mp hh).1

theorem upTail_tolerated : ∀ l ∈ upTail hub n, l.tolerated = true := by
  intro l hl
  rcases List.mem_cons.mp hl with rfl | hl
  · rfl
  · rcases List.mem_cons.mp hl with rfl | hl
    · rfl
    · exact exit_tolerated l hl

/-! ### Adding -/

/-- The rule that a command adds. -/
def addedRule : Cmd → Option IptRule
  | .add _ r => some r
  | .xkeen _ r => some r
  | _ => none

/-- The rule that a command deletes. -/
def deletedRule : Cmd → Option IptRule
  | .delete r => some r
  | _ => none

/-- The line adds its rule on this node. -/
def takes (env : Env) (l : Script.Line Cmd) : Bool :=
  match l.cmd with
  | .add _ r => env.installs r
  | .xkeen _ r => env.xkeen && env.installs r
  | _ => false

/-- The rules that lines add on this node. -/
def addedBy (env : Env) (ls : List (Script.Line Cmd)) : Multiset IptRule :=
  (((ls.filter (takes env)).filterMap fun l => addedRule l.cmd).map env.stored : List IptRule)

/-- Rules that iptables takes are added. -/
theorem run_adds {rs : List IptRule} {atHead : Bool} (h : ∀ r ∈ rs, env.installs r = true) :
    Script.run env.exec (rs.map fun r => strict (.add atHead r)) m =
      ((rs.map env.stored : List IptRule) + m, true) := by
  induction rs generalizing m with
  | nil => simp [Script.run]
  | cons r rs ih =>
    have hr : env.exec (.add atHead r) m = (env.stored r ::ₘ m, true) := by
      simp [Env.exec, h r List.mem_cons_self]
    rw [List.map_cons, Script.run_cons_of_ok hr, ih fun r' hr' => h r' (List.mem_cons_of_mem _ hr')]
    simp [← Multiset.cons_coe]

theorem addedBy_cons (l : Script.Line Cmd) (ls : List (Script.Line Cmd)) :
    addedBy env (l :: ls) = addedBy env [l] + addedBy env ls := by
  unfold addedBy
  rw [← List.singleton_append, List.filter_append, List.filterMap_append, List.map_append,
    ← Multiset.coe_add]

/-- A rule that lines add is named by one of them. -/
theorem mem_addedBy {ls : List (Script.Line Cmd)} {r : IptRule} (h : r ∈ addedBy env ls) :
    ∃ l ∈ ls, ∃ r₀ ∈ addedRule l.cmd, r = env.stored r₀ := by
  obtain ⟨r₀, hr₀, rfl⟩ := List.mem_map.mp (Multiset.mem_coe.mp h)
  obtain ⟨l, hl, hadd⟩ := List.mem_filterMap.mp hr₀
  exact ⟨l, (List.mem_filter.mp hl).1, r₀, hadd, rfl⟩

/-- A line that deletes nothing and names no rule that is there only adds its rule. -/
theorem exec_addedBy {l : Script.Line Cmd} (hdel : deletedRule l.cmd = none)
    (hnew : ∀ r ∈ addedRule l.cmd, env.stored r ∉ m) : (env.exec l.cmd m).1 = addedBy env [l] + m := by
  obtain ⟨tolerated, cmd⟩ := l
  cases cmd with
  | sysctl a | ip a => simp [Env.exec, addedBy, takes]
  | delete r => exact absurd hdel (by simp [deletedRule])
  | add atHead r =>
    by_cases hr : env.installs r = true <;> simp [Env.exec, addedBy, takes, addedRule, hr]
  | xkeen atHead r =>
    have hnot : env.stored r ∉ m := hnew r rfl
    by_cases hr : (env.xkeen && env.installs r) = true <;>
      simp [Env.exec, addedBy, takes, addedRule, hr, hnot]

/-- Tolerated lines add what the node takes, when none of it is there yet. -/
theorem run_addedBy {ls : List (Script.Line Cmd)} (htol : ∀ l ∈ ls, l.tolerated = true)
    (hdel : ∀ l ∈ ls, deletedRule l.cmd = none)
    (hkinds : ((ls.filterMap fun l => addedRule l.cmd).map kind).Nodup)
    (hnew : ∀ l ∈ ls, ∀ r ∈ addedRule l.cmd, env.stored r ∉ m) :
    (Script.run env.exec ls m).1 = addedBy env ls + m := by
  induction ls generalizing m with
  | nil => simp [Script.run, addedBy]
  | cons l ls ih =>
    have hexec := exec_addedBy (hdel l List.mem_cons_self) (hnew l List.mem_cons_self)
    have hdistinct : ∀ l' ∈ ls, ∀ r ∈ addedRule l'.cmd, env.stored r ∉ addedBy env [l] + m := by
      intro l' hl' r hr hmem
      rcases Multiset.mem_add.mp hmem with hmem | hmem
      · obtain ⟨l₁, hl₁, r₁, hr₁, he⟩ := mem_addedBy hmem
        obtain rfl := List.mem_singleton.mp hl₁
        have hkind : kind r₁ = kind r := by
          rw [← @kind_stored env r₁, ← @kind_stored env r, he]
        have hcons : (l₁ :: ls).filterMap (fun l => addedRule l.cmd) = r₁ :: ls.filterMap fun l => addedRule l.cmd :=
          List.filterMap_cons_some hr₁
        rw [hcons, List.map_cons, List.nodup_cons, hkind] at hkinds
        exact hkinds.1 (List.mem_map_of_mem (List.mem_filterMap.mpr ⟨l', hl', hr⟩))
      · exact hnew l' (List.mem_cons_of_mem _ hl') r hr hmem
    have hkinds' : ((ls.filterMap fun l => addedRule l.cmd).map kind).Nodup :=
      hkinds.sublist (((List.sublist_cons_self l ls).filterMap _).map kind)
    rw [Script.run_cons_of_tolerated (htol l List.mem_cons_self), hexec,
      ih (fun l' hl' => htol l' (List.mem_cons_of_mem _ hl'))
        (fun l' hl' => hdel l' (List.mem_cons_of_mem _ hl')) hkinds' hdistinct,
      addedBy_cons l ls, ← Multiset.add_assoc, Multiset.add_comm (addedBy env [l])]

/-! ### Deleting -/

/-- The rules that lines delete. -/
def deletedBy (env : Env) (ls : List (Script.Line Cmd)) : Multiset IptRule :=
  ((ls.filterMap fun l => deletedRule l.cmd).map env.stored : List IptRule)

/-- A line that adds nothing takes away what it deletes. -/
theorem exec_deletedBy {l : Script.Line Cmd} (hadd : addedRule l.cmd = none) :
    (env.exec l.cmd m).1 = m - deletedBy env [l] := by
  obtain ⟨tolerated, cmd⟩ := l
  cases cmd with
  | sysctl a | ip a => simp [Env.exec, deletedBy, deletedRule]
  | delete r => simp [Env.exec, deletedBy, deletedRule]
  | add atHead r | xkeen atHead r => exact absurd hadd (by simp [addedRule])

theorem deletedBy_cons (l : Script.Line Cmd) (ls : List (Script.Line Cmd)) :
    deletedBy env (l :: ls) = deletedBy env [l] + deletedBy env ls := by
  unfold deletedBy
  rw [← List.singleton_append, List.filterMap_append, List.map_append, ← Multiset.coe_add]

theorem deletedBy_single {l : Script.Line Cmd} {r : IptRule} (h : deletedRule l.cmd = some r) :
    deletedBy env [l] = {env.stored r} := by
  simp [deletedBy, h]

/-- Lines that only delete take away what they name, if no strict one misses its rule. -/
theorem run_deletedBy {ls : List (Script.Line Cmd)} (hadd : ∀ l ∈ ls, addedRule l.cmd = none)
    (hthere : ∀ l ∈ ls, l.tolerated = false → ∀ r ∈ deletedRule l.cmd,
      (deletedBy env ls).count (env.stored r) ≤ m.count (env.stored r)) :
    Script.run env.exec ls m = (m - deletedBy env ls, true) := by
  induction ls generalizing m with
  | nil => simp [Script.run, deletedBy]
  | cons l ls ih =>
    have hexec := @exec_deletedBy env m l (hadd l List.mem_cons_self)
    -- the line may fail, or its rule is there
    have hok : (env.exec l.cmd m).2 = true ∨ l.tolerated = true := by
      by_cases htol : l.tolerated = true
      · exact Or.inr htol
      · refine Or.inl ?_
        cases hcmd : l.cmd with
        | sysctl a | ip a => rfl
        | add atHead r | xkeen atHead r =>
          exact absurd (hadd l List.mem_cons_self) (by simp [hcmd, addedRule])
        | delete r =>
          have hr : deletedRule l.cmd = some r := by rw [hcmd]; rfl
          have hcount := hthere l List.mem_cons_self (by simpa using htol) r hr
          rw [deletedBy_cons, deletedBy_single hr, Multiset.count_add, Multiset.count_singleton_self] at hcount
          have hmem : env.stored r ∈ m := Multiset.count_pos.mp (by omega)
          simp [Env.exec, hmem]
    -- what the line takes away is counted among what all lines name
    have hrest : ∀ l' ∈ ls, l'.tolerated = false → ∀ r ∈ deletedRule l'.cmd,
        (deletedBy env ls).count (env.stored r) ≤ (m - deletedBy env [l]).count (env.stored r) := by
      intro l' hl' htol r hr
      have hcount := hthere l' (List.mem_cons_of_mem _ hl') htol r hr
      rw [deletedBy_cons, Multiset.count_add] at hcount
      rw [Multiset.count_sub]
      omega
    have hrun : Script.run env.exec (l :: ls) m = Script.run env.exec ls (env.exec l.cmd m).1 := by
      rcases hok with hok | htol
      · exact Script.run_cons_of_ok (Prod.ext rfl hok)
      · exact Script.run_cons_of_tolerated htol
    rw [hrun, hexec, ih (fun l' hl' => hadd l' (List.mem_cons_of_mem _ hl')) hrest, deletedBy_cons l ls,
      Multiset.sub_add_eq_sub_sub]

/-! ## Up and down -/

theorem expand_tunnel : env.expand "%i" = env.iface := by
  have hreplace : replaceAll ['%', 'i'] env.iface.toList 0 "%i".toList = env.iface.toList := by
    simp [replaceAll]
  rw [Env.expand, hreplace, String.ofList_toList]

/-- The pool's rule goes in when the pool is IPv4. -/
theorem installs_pool : env.installs (poolRule hub) = hub.poolCIDR.is4 := by
  simp [Env.installs, poolRule, masqueradeRule, notTunnel, expand_tunnel, env.takes_iface, Env.knows]

/-- A linked subnet's rule goes in when the node takes the subnet. -/
theorem installs_reach (s : Prefix) : env.installs (reachRule n s) = reachable env n s := by
  simp [Env.installs, reachRule, masqueradeRule, reachable, Env.knows]

/-- The tunnel's two rules always go in. -/
theorem installs_forward : ∀ r ∈ forwardRules, env.installs r = true := by
  simp [forwardRules, outOfTunnel, intoTunnel, inputRule, acceptRule, Env.installs, tunnel, notTunnel,
    expand_tunnel, env.takes_iface, Env.knows]

/-- The rules of a file beside those of its linked subnets, as far as the node takes them. -/
def laid (env : Env) (hub : Hub) (n : Node) : Multiset IptRule :=
  addedBy env (upTail hub n) + ((forwardRules.map env.stored : List IptRule) + {env.stored (poolRule hub)})

theorem upTail_adds : (upTail hub n).filterMap (fun l => addedRule l.cmd) = tailRules := rfl

theorem addedBy_upTail_le : addedBy env (upTail hub n) ≤ (tailRules.map env.stored : List IptRule) := by
  rw [← @upTail_adds hub n]
  exact Multiset.coe_le.mpr ((List.filter_sublist.filterMap _).map env.stored).subperm

theorem mem_fixedRules {r : IptRule} (hr : r ∈ tailRules ++ (forwardRules ++ [poolRule hub])) :
    r ∈ fixedRules hub := by
  simp only [tailRules, forwardRules, List.mem_append, List.mem_cons, List.not_mem_nil, or_false] at hr
  rcases hr with (rfl | rfl | rfl | rfl | rfl | rfl | rfl | rfl | rfl) | (rfl | rfl | rfl) | rfl <;>
    simp only [fixedRules, List.mem_cons, true_or, or_true]

/-- What is laid beside the linked subnets is part of the fixed rules. -/
theorem laid_le_fixed : laid env hub n ≤ fixed env hub := by
  have hle : laid env hub n ≤
      ((tailRules ++ (forwardRules ++ [poolRule hub])).map env.stored : List IptRule) := by
    rw [List.map_append, List.map_append, ← Multiset.coe_add, ← Multiset.coe_add]
    exact Multiset.add_le_add_right addedBy_upTail_le
  have hnodup : ((tailRules ++ (forwardRules ++ [poolRule hub])).map env.stored).Nodup := by
    refine List.Nodup.of_map kind ?_
    rw [List.map_map, show kind ∘ env.stored = kind from funext kind_stored]
    have hclosed : (tailRules ++ (forwardRules ++ [poolRule hub])).map kind =
      (tailRules ++ (forwardRules ++ [poolRule demoHub])).map kind := rfl
    rw [hclosed]
    decide
  refine hle.trans ((Multiset.le_iff_subset (Multiset.coe_nodup.mpr hnodup)).mpr fun r hr => ?_)
  obtain ⟨r₀, hr₀, rfl⟩ := List.mem_map.mp (Multiset.mem_coe.mp hr)
  exact Multiset.mem_coe.mpr (List.mem_map_of_mem (mem_fixedRules hr₀))

/-- The lines that must succeed do on a node that can reach every linked subnet. -/
theorem up_ok (hpool : hub.poolCIDR.is4 = true) (hreach : ∀ s ∈ reach, reachable env n s = true) :
    env.quick.up (nodeHooks hub n reach) m =
      Script.run env.exec (upTail hub n) ((forwardRules.map env.stored : List IptRule) +
        (({env.stored (poolRule hub)} + reachRules env n reach) + m)) := by
  have hsysctl : env.exec (.sysctl "net.ipv4.ip_forward=1") m = (m, true) := rfl
  have hnat : ∀ r ∈ [poolRule hub] ++ reach.map (reachRule n), env.installs r = true := by
    intro r hr
    rcases List.mem_append.mp hr with hr | hr
    · rw [List.mem_singleton.mp hr, installs_pool, hpool]
    · obtain ⟨s, hs, rfl⟩ := List.mem_map.mp hr
      rw [installs_reach, hreach s hs]
  have hstored : (([poolRule hub] ++ reach.map (reachRule n)).map env.stored : Multiset IptRule) =
      {env.stored (poolRule hub)} + reachRules env n reach := by
    rw [List.map_append, ← Multiset.coe_add, List.map_map]
    rfl
  change Script.run env.exec (lines true (nodeHooks hub n reach)) m = _
  rw [lines_up, Script.run_cons_of_ok hsysctl, Script.run_append_of_ok (run_adds hnat), hstored,
    Script.run_append_of_ok (run_adds installs_forward)]

/-- Rules that are stored alike are of one kind. -/
theorem kind_eq {r r' : IptRule} (h : env.stored r = env.stored r') : kind r = kind r' := by
  rw [← @kind_stored env r, h, kind_stored]

/-- The optional rules are of other kinds than the ones that have to be there. -/
theorem tail_kinds : ∀ r ∈ tailRules,
    kind r ∉ forwardRules.map kind ∧ kind r ≠ kind (poolRule hub) ∧ kind r ≠ reachKind := by
  have hclosed : kind (poolRule hub) = kind (poolRule demoHub) := rfl
  rw [hclosed]
  decide

theorem upTail_deletes_nothing : ∀ l ∈ upTail hub n, deletedRule l.cmd = none := by
  have hall : (upTail hub n).all (fun l => (deletedRule l.cmd).isNone) = true := rfl
  exact fun l hl => by simpa using List.all_eq_true.mp hall l hl

/-- Bringing a file up beside rules of linked subnets only. -/
theorem up_laid (hpool : hub.poolCIDR.is4 = true) (hreach : ∀ s ∈ reach, reachable env n s = true)
    (hm : ∀ r ∈ m, kind r = reachKind) :
    env.quick.up (nodeHooks hub n reach) m = (laid env hub n + (reachRules env n reach + m), true) := by
  have hnew : ∀ l ∈ upTail hub n, ∀ r ∈ addedRule l.cmd, env.stored r ∉
      (forwardRules.map env.stored : List IptRule) +
        (({env.stored (poolRule hub)} + reachRules env n reach) + m) := by
    intro l hl r hr hmem
    have htail : r ∈ tailRules := @upTail_adds hub n ▸ List.mem_filterMap.mpr ⟨l, hl, hr⟩
    obtain ⟨hforward, hpoolKind, hreachKind⟩ := tail_kinds r htail
    simp only [Multiset.mem_add, Multiset.mem_coe, List.mem_map, Multiset.mem_singleton] at hmem
    rcases hmem with ⟨r', hr', he⟩ | (he | hr') | hr'
    · exact hforward (List.mem_map.mpr ⟨r', hr', kind_eq he⟩)
    · exact hpoolKind (kind_eq he)
    · exact hreachKind (@kind_stored env r ▸ kind_of_mem_reachRules hr')
    · exact hreachKind (@kind_stored env r ▸ hm _ hr')
  have hkinds : (((upTail hub n).filterMap fun l => addedRule l.cmd).map kind).Nodup := by
    rw [upTail_adds]
    decide
  rw [up_ok hpool hreach]
  refine Prod.ext ?_ (Script.run_tolerated upTail_tolerated)
  rw [run_addedBy upTail_tolerated upTail_deletes_nothing hkinds hnew]
  simp only [laid, Multiset.add_assoc]

theorem deletedBy_append (ls ls' : List (Script.Line Cmd)) :
    deletedBy env (ls ++ ls') = deletedBy env ls + deletedBy env ls' := by
  unfold deletedBy
  rw [List.filterMap_append, List.map_append, ← Multiset.coe_add]

/-- The `PostDown` lines of the linked subnets delete their rules. -/
theorem deletedBy_reach :
    deletedBy env (reach.map fun s => strict (.delete (reachRule n s))) = reachRules env n reach := by
  unfold deletedBy
  rw [List.filterMap_map, show (fun l : Script.Line Cmd => deletedRule l.cmd) ∘
    (fun s => strict (.delete (reachRule n s))) = some ∘ reachRule n from rfl, List.filterMap_eq_map,
    List.map_map]
  rfl

/-- The rules that a file's teardown names. -/
theorem deletedBy_down :
    deletedBy env (lines false (nodeHooks hub n reach)) = fixed env hub + reachRules env n reach := by
  have hfixed : fixed env hub = (((fixedRules hub).take 4).map env.stored : List IptRule) +
      (((fixedRules hub).drop 4).map env.stored : List IptRule) := by
    rw [Multiset.coe_add, ← List.map_append, List.take_append_drop]
    rfl
  rw [lines_down, deletedBy_append, deletedBy_append, deletedBy_reach, hfixed, Multiset.add_assoc,
    Multiset.add_assoc, Multiset.add_comm (reachRules env n reach)]
  rfl

theorem down_deletes : ∀ l ∈ lines false (nodeHooks hub n reach), addedRule l.cmd = none := by
  have hhead : (downHead hub).all (fun l => (addedRule l.cmd).isNone) = true := rfl
  have hexit : (lines false (exitHooks hub n)).all (fun l => (addedRule l.cmd).isNone) = true := rfl
  intro l hl
  rw [lines_down] at hl
  rcases List.mem_append.mp hl with hl | hl
  · rcases List.mem_append.mp hl with hl | hl
    · simpa using List.all_eq_true.mp hhead l hl
    · obtain ⟨s, -, rfl⟩ := List.mem_map.mp hl
      rfl
  · rcases List.mem_cons.mp hl with rfl | hl
    · rfl
    · rcases List.mem_cons.mp hl with rfl | hl
      · rfl
      · simpa using List.all_eq_true.mp hexit l hl

/-- The deletions a teardown stops at. -/
theorem strict_down {l : Script.Line Cmd} {r : IptRule} (hl : l ∈ lines false (nodeHooks hub n reach))
    (hstrict : l.tolerated = false) (hr : deletedRule l.cmd = some r) :
    r ∈ forwardRules ++ [poolRule hub] ∨ ∃ s ∈ reach, r = reachRule n s := by
  rw [lines_down] at hl
  rcases List.mem_append.mp hl with hl | hl
  · rcases List.mem_append.mp hl with hl | hl
    · left
      simp only [downHead, List.mem_cons, List.not_mem_nil, or_false] at hl
      rcases hl with rfl | rfl | rfl | rfl <;> simp_all [strict, tolerant, deletedRule, forwardRules]
    · obtain ⟨s, hs, rfl⟩ := List.mem_map.mp hl
      exact Or.inr ⟨s, hs, (Option.some.inj hr).symm⟩
  · left
    rcases List.mem_cons.mp hl with rfl | hl
    · simp_all [strict, deletedRule, forwardRules]
    · rcases List.mem_cons.mp hl with rfl | hl
      · simp_all [strict, deletedRule, forwardRules]
      · exact absurd (exit_tolerated l hl) (by simp [hstrict])

/-- A rule of another kind is not among the linked subnets' rules. -/
theorem count_reachRules {r : IptRule} (h : kind r ≠ reachKind) : (reachRules env n reach).count r = 0 :=
  Multiset.count_eq_zero.mpr fun hr => h (kind_of_mem_reachRules hr)

/-- A rule of their kind is not among the fixed ones. -/
theorem count_fixed_of_reachKind {r : IptRule} (h : kind r = reachKind) : (fixed env hub).count r = 0 :=
  Multiset.count_eq_zero.mpr fun hr => kind_of_mem_fixed hr h

theorem mem_laid {r : IptRule} (h : r ∈ forwardRules ++ [poolRule hub]) :
    env.stored r ∈ laid env hub n := by
  refine Multiset.mem_add.mpr (Or.inr (Multiset.mem_add.mpr ?_))
  rcases List.mem_append.mp h with h | h
  · exact Or.inl (Multiset.mem_coe.mpr (List.mem_map_of_mem h))
  · exact Or.inr (Multiset.mem_singleton.mpr (congrArg _ (List.mem_singleton.mp h)))

/-- Taking a file down that links no more than the rules there. -/
theorem down_laid (hle : reachRules env n reach ≤ reachRules env n first) :
    env.quick.down (nodeHooks hub n reach) (laid env hub n + reachRules env n first) =
      (reachRules env n first - reachRules env n reach, true) := by
  have hthere : ∀ l ∈ lines false (nodeHooks hub n reach), l.tolerated = false →
      ∀ r ∈ deletedRule l.cmd, (deletedBy env (lines false (nodeHooks hub n reach))).count (env.stored r) ≤
        (laid env hub n + reachRules env n first).count (env.stored r) := by
    intro l hl hstrict r hr
    rw [deletedBy_down, Multiset.count_add, Multiset.count_add]
    rcases strict_down hl hstrict hr with hr | ⟨s, hs, rfl⟩
    · have hlaid := Multiset.one_le_count_iff_mem.mpr (@mem_laid env hub n r hr)
      have hcount := Multiset.nodup_iff_count_le_one.mp (@fixed_nodup env hub) (env.stored r)
      have hle' := Multiset.le_iff_count.mp hle (env.stored r)
      omega
    · have hcount := @count_fixed_of_reachKind env hub (env.stored (reachRule n s)) (by rw [kind_stored]; rfl)
      have hle' := Multiset.le_iff_count.mp hle (env.stored (reachRule n s))
      omega
  have hrun := run_deletedBy down_deletes hthere
  rw [deletedBy_down] at hrun
  refine hrun.trans (Prod.ext (Multiset.ext.mpr fun r => ?_) rfl)
  have hlaid := Multiset.le_iff_count.mp (@laid_le_fixed env hub n) r
  simp only [Multiset.count_sub, Multiset.count_add]
  by_cases hr : kind r = reachKind
  · have hcount := @count_fixed_of_reachKind env hub r hr
    omega
  · have hfirst := @count_reachRules env n first r hr
    omega

/-! ## Counting -/

theorem deletedBy_sum (ls : List (Script.Line Cmd)) (r : IptRule) :
    (ls.map fun l => (deletedBy env [l]).count r).sum = (deletedBy env ls).count r := by
  induction ls with
  | nil => rfl
  | cons l ls ih => rw [List.map_cons, List.sum_cons, ih, deletedBy_cons l ls, Multiset.count_add]

theorem addedBy_sum (ls : List (Script.Line Cmd)) (r : IptRule) :
    (ls.map fun l => (addedBy env [l]).count r).sum = (addedBy env ls).count r := by
  induction ls with
  | nil => rfl
  | cons l ls ih => rw [List.map_cons, List.sum_cons, ih, addedBy_cons l ls, Multiset.count_add]

/-- Lines take a rule away at most as often as they name it. -/
theorem run_loses_deletedBy (ls : List (Script.Line Cmd)) (r : IptRule) :
    m.count r ≤ (Script.run env.exec ls m).1.count r + (deletedBy env ls).count r := by
  rw [← deletedBy_sum]
  refine Script.run_loses (f := Multiset.count r) fun l m => ?_
  obtain ⟨tolerated, cmd⟩ := l
  cases cmd with
  | sysctl a | ip a => exact Nat.le_add_right _ _
  | delete r' =>
    simp only [Env.exec, deletedBy, deletedRule, List.filterMap_cons, List.filterMap_nil, List.map_cons,
      List.map_nil, Multiset.coe_singleton]
    rw [← Multiset.sub_singleton, Multiset.count_sub]
    omega
  | add atHead r' =>
    simp only [Env.exec]
    split
    · exact Nat.le_add_right_of_le (Multiset.count_le_count_cons ..)
    · exact Nat.le_add_right _ _
  | xkeen atHead r' =>
    simp only [Env.exec]
    split
    · split
      · exact Nat.le_add_right _ _
      · exact Nat.le_add_right_of_le (Multiset.count_le_count_cons ..)
    · exact Nat.le_add_right _ _

/-- A line adds at most the rule that it names. -/
theorem exec_gains_addedBy (l : Script.Line Cmd) (m : Multiset IptRule) (r : IptRule) :
    (env.exec l.cmd m).1.count r ≤ m.count r + (addedBy env [l]).count r := by
  obtain ⟨tolerated, cmd⟩ := l
  cases cmd with
  | sysctl a | ip a => exact Nat.le_add_right _ _
  | delete r' => exact Nat.le_add_right_of_le (Multiset.count_le_of_le r (Multiset.erase_le _ _))
  | add atHead r' =>
    by_cases hr : env.installs r' = true
    · simp [Env.exec, addedBy, takes, addedRule, hr, Multiset.count_cons, Multiset.count_singleton]
    · simp [Env.exec, hr]
  | xkeen atHead r' =>
    by_cases hr : (env.xkeen && env.installs r') = true
    · simp only [Env.exec, hr, if_true, addedBy, takes, addedRule, List.filter_cons, List.filter_nil,
        List.filterMap_cons, List.filterMap_nil, List.map_cons, List.map_nil, Multiset.coe_singleton]
      split
      · exact Nat.le_add_right _ _
      · rw [Multiset.count_cons, Multiset.count_singleton]
    · simp [Env.exec, hr]

/-- Lines add a rule at most as often as they name it. -/
theorem run_gains_addedBy (ls : List (Script.Line Cmd)) (r : IptRule) :
    (Script.run env.exec ls m).1.count r ≤ m.count r + (addedBy env ls).count r := by
  rw [← addedBy_sum]
  exact Script.run_gains (f := Multiset.count r) fun l m => exec_gains_addedBy l m r

/-- A teardown takes a rule of every file away at most once. -/
theorem count_down {r : IptRule} (h : kind r ≠ reachKind) :
    m.count r ≤ (env.quick.down (nodeHooks hub n reach) m).1.count r + 1 := by
  have hrun := @run_loses_deletedBy env m (lines false (nodeHooks hub n reach)) r
  have hfixed := Multiset.nodup_iff_count_le_one.mp (@fixed_nodup env hub) r
  rw [deletedBy_down, Multiset.count_add, count_reachRules h] at hrun
  change m.count r ≤ (Script.run env.exec _ m).1.count r + 1
  omega

/-- The rules that must go in do, on a node that can reach every linked subnet. -/
theorem count_up {r : IptRule} (hpool : hub.poolCIDR.is4 = true)
    (hreach : ∀ s ∈ reach, reachable env n s = true) (hr : r ∈ forwardRules ++ [poolRule hub]) :
    m.count (env.stored r) + 1 ≤ (env.quick.up (nodeHooks hub n reach) m).1.count (env.stored r) := by
  have hrun := @run_loses_deletedBy env ((forwardRules.map env.stored : List IptRule) +
    (({env.stored (poolRule hub)} + reachRules env n reach) + m)) (upTail hub n) (env.stored r)
  have hnone : deletedBy env (upTail hub n) = 0 := rfl
  have hmem : env.stored r ∈
      (forwardRules.map env.stored : List IptRule) + ({env.stored (poolRule hub)} : Multiset IptRule) := by
    rcases List.mem_append.mp hr with hr | hr
    · exact Multiset.mem_add.mpr (Or.inl (Multiset.mem_coe.mpr (List.mem_map_of_mem hr)))
    · exact Multiset.mem_add.mpr (Or.inr (by simp [List.mem_singleton.mp hr]))
  have hcount := Multiset.one_le_count_iff_mem.mpr hmem
  rw [up_ok hpool hreach]
  simp only [hnone, Multiset.count_add, Multiset.count_zero] at hrun hcount
  omega

/-- A file comes up when the pool is IPv4 and the node takes every linked subnet. -/
theorem up_succeeds (hpool : hub.poolCIDR.is4 = true) (hreach : ∀ s ∈ reach, reachable env n s = true) :
    (env.quick.up (nodeHooks hub n reach) m).2 = true := by
  rw [up_ok hpool hreach]
  exact Script.run_tolerated upTail_tolerated

/-- The rules of linked subnets, up to one that the node cannot reach. -/
theorem run_reach (hreach : ¬ ∀ s ∈ reach, reachable env n s = true) :
    (Script.run env.exec (reach.map fun s => strict (.add false (reachRule n s))) m).2 = false ∧
      ∀ r, kind r ≠ reachKind → (Script.run env.exec
        (reach.map fun s => strict (.add false (reachRule n s))) m).1.count r = m.count r := by
  induction reach generalizing m with
  | nil => exact absurd (fun s hs => absurd hs List.not_mem_nil) hreach
  | cons s reach ih =>
    by_cases hs : reachable env n s = true
    · have hexec : env.exec (.add false (reachRule n s)) m = (env.stored (reachRule n s) ::ₘ m, true) := by
        simp [Env.exec, installs_reach, hs]
      have hrest : ¬ ∀ s' ∈ reach, reachable env n s' = true := fun hall =>
        hreach fun s' hs' => (List.mem_cons.mp hs').elim (fun he => he ▸ hs) (hall s')
      rw [List.map_cons, Script.run_cons_of_ok hexec]
      refine ⟨(ih hrest).1, fun r hr => ((ih hrest).2 r hr).trans ?_⟩
      refine Multiset.count_cons_of_ne (fun he => hr ?_) m
      rw [he, kind_stored]
      rfl
    · have hexec : env.exec (.add false (reachRule n s)) m = (m, false) := by
        simp [Env.exec, installs_reach, hs]
      rw [List.map_cons, Script.run_cons_of_fail hexec rfl]
      exact ⟨rfl, fun _ _ => rfl⟩

/-- On any other node the file does not come up, and of the rules of every file only the first is there. -/
theorem up_fails (hpool : hub.poolCIDR.is4 = true) (hreach : ¬ ∀ s ∈ reach, reachable env n s = true) :
    (env.quick.up (nodeHooks hub n reach) m).2 = false ∧
      ∀ r, kind r ≠ reachKind → (env.quick.up (nodeHooks hub n reach) m).1.count r =
        m.count r + ({env.stored (poolRule hub)} : Multiset IptRule).count r := by
  have hsysctl : env.exec (.sysctl "net.ipv4.ip_forward=1") m = (m, true) := rfl
  have hadd : env.exec (.add false (poolRule hub)) m = (env.stored (poolRule hub) ::ₘ m, true) := by
    simp [Env.exec, installs_pool, hpool]
  obtain ⟨hfail, hcount⟩ := @run_reach env n reach (env.stored (poolRule hub) ::ₘ m) hreach
  have hup : env.quick.up (nodeHooks hub n reach) m = Script.run env.exec
      (reach.map fun s => strict (.add false (reachRule n s))) (env.stored (poolRule hub) ::ₘ m) := by
    change Script.run env.exec (lines true (nodeHooks hub n reach)) m = _
    rw [lines_up, Script.run_cons_of_ok hsysctl, List.map_append, List.map_cons, List.map_nil,
      List.singleton_append, List.cons_append, Script.run_cons_of_ok hadd, List.map_map]
    exact Script.run_append_of_fail hfail
  rw [hup]
  refine ⟨hfail, fun r hr => (hcount r hr).trans ?_⟩
  rw [Multiset.count_cons, Multiset.count_singleton]

theorem kind_pool : kind (poolRule hub) ≠ reachKind := by
  have hclosed : kind (poolRule hub) = kind (poolRule demoHub) := rfl
  rw [hclosed]
  decide

/-- Each `PostUp` adds the pool's rule once more, even one that fails later on. -/
theorem up_pool (hpool : hub.poolCIDR.is4 = true) :
    m.count (env.stored (poolRule hub)) + 1 ≤
      (env.quick.up (nodeHooks hub n reach) m).1.count (env.stored (poolRule hub)) := by
  by_cases hreach : ∀ s ∈ reach, reachable env n s = true
  · exact count_up hpool hreach (by simp)
  · rw [(up_fails hpool hreach).2 _ (by rw [kind_stored]; exact kind_pool), Multiset.count_singleton_self]

/-- A teardown adds nothing. -/
theorem down_le (r : IptRule) : (env.quick.down (nodeHooks hub n reach) m).1.count r ≤ m.count r := by
  have hnone : addedBy env (lines false (nodeHooks hub n reach)) = 0 := by
    refine Multiset.eq_zero_of_forall_notMem fun r hr => ?_
    obtain ⟨l, hl, r₀, hr₀, -⟩ := mem_addedBy hr
    rw [down_deletes l hl] at hr₀
    exact absurd hr₀ (by simp)
  have hrun := @run_gains_addedBy env m (lines false (nodeHooks hub n reach)) r
  rw [hnone] at hrun
  exact hrun

/-- Deletions that all succeed found every rule they name. -/
theorem run_deletes_le (h : (Script.run env.exec (reach.map fun s => strict (.delete (reachRule n s))) m).2 =
    true) : reachRules env n reach ≤ m := by
  induction reach generalizing m with
  | nil => exact Multiset.zero_le m
  | cons s reach ih =>
    by_cases hmem : env.stored (reachRule n s) ∈ m
    · have hexec : env.exec (.delete (reachRule n s)) m = (m.erase (env.stored (reachRule n s)), true) := by
        simp [Env.exec, hmem]
      rw [List.map_cons, Script.run_cons_of_ok hexec] at h
      exact (Multiset.cons_le_cons _ (ih h)).trans (Multiset.cons_erase hmem).le
    · have hexec : env.exec (.delete (reachRule n s)) m = (m.erase (env.stored (reachRule n s)), false) := by
        simp [Env.exec, hmem]
      rw [List.map_cons, Script.run_cons_of_fail hexec rfl] at h
      exact absurd h (by simp)

/-- A `PostDown` with a linked subnet that was not laid stops there. -/
theorem named_stops (h : ¬ reachRules env n reach ≤ reachRules env n first) :
    (Script.run env.exec (downHead hub ++ reach.map fun s => strict (.delete (reachRule n s)))
      (laid env hub n + reachRules env n first)).2 = false := by
  rw [Script.run_append]
  by_cases hhead : (Script.run env.exec (downHead hub) (laid env hub n + reachRules env n first)).2 = true
  · rw [if_pos hhead]
    by_contra hok
    refine h (Multiset.le_iff_count.mpr fun r => ?_)
    have hle := Multiset.le_iff_count.mp (run_deletes_le (by simpa using hok)) r
    have hgain := @run_gains_addedBy env (laid env hub n + reachRules env n first) (downHead hub) r
    have hnone : addedBy env (downHead hub) = 0 := rfl
    have hlaid := Multiset.le_iff_count.mp (@laid_le_fixed env hub n) r
    rw [hnone, Multiset.count_add, Multiset.count_zero] at hgain
    by_cases hr : kind r = reachKind
    · have hfixed := @count_fixed_of_reachKind env hub r hr
      omega
    · rw [count_reachRules hr]
      exact Nat.zero_le _
  · rw [if_neg hhead]
    simpa using hhead

theorem count_outOfTunnel_downHead :
    (deletedBy env (downHead hub)).count (env.stored outOfTunnel) = 0 := by
  refine Multiset.count_eq_zero.mpr fun hr => ?_
  obtain ⟨r, hr, he⟩ := List.mem_map.mp (Multiset.mem_coe.mp hr)
  have hnot : kind outOfTunnel ∉ ((fixedRules hub).take 4).map kind := by
    have hclosed : ((fixedRules hub).take 4).map kind = ((fixedRules demoHub).take 4).map kind := rfl
    rw [hclosed]
    decide
  exact hnot (kind_eq he ▸ List.mem_map_of_mem hr)

/-- A teardown that names a subnet the rules do not have stops there and leaves the forwarding rules. -/
theorem down_aborts (h : ¬ reachRules env n reach ≤ reachRules env n first) :
    (laid env hub n + reachRules env n first).count (env.stored outOfTunnel) ≤
      (env.quick.down (nodeHooks hub n reach) (laid env hub n + reachRules env n first)).1.count
        (env.stored outOfTunnel) := by
  have hrun := @run_loses_deletedBy env (laid env hub n + reachRules env n first)
    (downHead hub ++ reach.map fun s => strict (.delete (reachRule n s))) (env.stored outOfTunnel)
  have hnone : (deletedBy env (downHead hub ++ reach.map fun s => strict (.delete (reachRule n s)))).count
      (env.stored outOfTunnel) = 0 := by
    rw [deletedBy_append, deletedBy_reach, Multiset.count_add, count_outOfTunnel_downHead,
      count_reachRules (by rw [kind_stored]; decide)]
  rw [hnone, Nat.add_zero] at hrun
  change _ ≤ (Script.run env.exec (lines false (nodeHooks hub n reach)) _).1.count _
  rw [lines_down, Script.run_append_of_fail (named_stops h)]
  exact hrun

/-! ## Pushes -/

/-- The rules of one file, with the old file on disk to fall back to. -/
structure Aligned (env : Env) (hub : Hub) (n : Node) (first : List Prefix)
    (h : Host (List Hook) (Multiset IptRule)) : Prop where
  conf : ∃ old, h.conf = some (nodeHooks hub n old)
  rest : h.rest = laid env hub n + reachRules env n first

/-- A rule that a file has once is there twice. -/
structure Broken (env : Env) (hub : Hub) (n : Node) (h : Host (List Hook) (Multiset IptRule)) : Prop where
  conf : ∃ old, h.conf = some (nodeHooks hub n old)
  rest : ∃ r ∈ [poolRule hub, outOfTunnel], 2 ≤ h.rest.count (env.stored r)

variable {h : Host (List Hook) (Multiset IptRule)} {old : List Prefix} {rest : List (List Prefix)}

theorem kind_twice {r : IptRule} (hr : r ∈ [poolRule hub, outOfTunnel]) : kind (env.stored r) ≠ reachKind := by
  rw [kind_stored]
  rcases List.mem_cons.mp hr with rfl | hr
  · exact kind_pool
  · rw [List.mem_singleton.mp hr]
    decide

theorem twice_mem {r : IptRule} (hr : r ∈ [poolRule hub, outOfTunnel]) :
    r ∈ forwardRules ++ [poolRule hub] := by
  rcases List.mem_cons.mp hr with rfl | hr
  · exact List.mem_append_right _ (List.mem_singleton_self _)
  · rw [List.mem_singleton.mp hr]
    exact List.mem_append_left _ List.mem_cons_self

/-- A push whose file comes up leaves that file and what its lines did. -/
theorem push_of_up (hconf : h.conf = some (nodeHooks hub n old))
    (hup : (env.quick.up (nodeHooks hub n reach) (env.quick.down (nodeHooks hub n reach) h.rest).1).2 = true) :
    (push env hub n h reach).conf = some (nodeHooks hub n reach) ∧
      (push env hub n h reach).rest =
        (env.quick.up (nodeHooks hub n reach) (env.quick.down (nodeHooks hub n reach) h.rest).1).1 := by
  unfold push writeAndApply
  rcases hrun : env.quick.up (nodeHooks hub n reach) (env.quick.down (nodeHooks hub n reach) h.rest).1
    with ⟨m, ok⟩
  rw [hrun] at hup
  obtain rfl := hup
  simp only [Faults.none, hconf, Option.some_or]
  exact ⟨rfl, rfl⟩

/-- A file that does not come up is replaced by the one before it. -/
theorem push_of_up_fails (hconf : h.conf = some (nodeHooks hub n old))
    (hup : (env.quick.up (nodeHooks hub n reach) (env.quick.down (nodeHooks hub n reach) h.rest).1).2 = false) :
    (push env hub n h reach).conf = some (nodeHooks hub n old) ∧
      (push env hub n h reach).rest = (env.quick.up (nodeHooks hub n old)
        (env.quick.up (nodeHooks hub n reach) (env.quick.down (nodeHooks hub n reach) h.rest).1).1).1 := by
  unfold push writeAndApply
  rcases hrun : env.quick.up (nodeHooks hub n reach) (env.quick.down (nodeHooks hub n reach) h.rest).1
    with ⟨m, ok⟩
  rw [hrun] at hup
  obtain rfl := hup
  simp only [Faults.none, hconf, Option.some_or]
  exact ⟨rfl, rfl⟩

/-- Both the new file and the old one add the rule for the pool. -/
theorem push_unreachable (hpool : hub.poolCIDR.is4 = true) (hconf : h.conf = some (nodeHooks hub n old))
    (hreach : ¬ ∀ s ∈ reach, reachable env n s = true) : Broken env hub n (push env hub n h reach) := by
  obtain ⟨hconf', hrest⟩ := push_of_up_fails hconf (up_fails hpool hreach).1
  refine ⟨⟨old, hconf'⟩, poolRule hub, List.mem_cons_self, ?_⟩
  have hnew := @up_pool env hub n reach (env.quick.down (nodeHooks hub n reach) h.rest).1 hpool
  have hold := @up_pool env hub n old
    (env.quick.up (nodeHooks hub n reach) (env.quick.down (nodeHooks hub n reach) h.rest).1).1 hpool
  rw [hrest]
  omega

/-- A push that names no subnet beyond the laid ones keeps the rules of the first file. -/
theorem push_of_le (hpool : hub.poolCIDR.is4 = true) (hfirst : ∀ s ∈ first, reachable env n s = true)
    (h' : Aligned env hub n first h) (hle : sources reach ≤ sources first) :
    Aligned env hub n first (push env hub n h reach) := by
  obtain ⟨old, hconf⟩ := h'.conf
  have hrules := (@reachRules_le_iff env n reach first).mpr hle
  have hdown := @down_laid env hub n reach first hrules
  have hup := @up_laid env hub n reach (reachRules env n first - reachRules env n reach) hpool
    (reachable_of_le hfirst hle)
    fun r hr => kind_of_mem_reachRules (Multiset.mem_of_le (Multiset.sub_le_self _ _) hr)
  rw [Multiset.add_comm (reachRules env n reach), Multiset.sub_add_cancel hrules] at hup
  have hstep : env.quick.up (nodeHooks hub n reach) (env.quick.down (nodeHooks hub n reach) h.rest).1 =
      (laid env hub n + reachRules env n first, true) := by
    rw [h'.rest, hdown, hup]
  obtain ⟨hconf', hrest⟩ := push_of_up hconf (congrArg Prod.snd hstep)
  exact ⟨⟨reach, hconf'⟩, hrest.trans (congrArg Prod.fst hstep)⟩

/-- The teardown leaves the forwarding rules, and bringing the file up adds them again. -/
theorem push_of_not_le (hpool : hub.poolCIDR.is4 = true) (h' : Aligned env hub n first h)
    (hle : ¬ sources reach ≤ sources first) : Broken env hub n (push env hub n h reach) := by
  obtain ⟨old, hconf⟩ := h'.conf
  by_cases hreach : ∀ s ∈ reach, reachable env n s = true
  · obtain ⟨hconf', hrest⟩ := push_of_up hconf (up_succeeds hpool hreach)
    refine ⟨⟨reach, hconf'⟩, outOfTunnel, by simp, ?_⟩
    have habort := @down_aborts env hub n reach first fun hrules => hle (reachRules_le_iff.mp hrules)
    have hlaid := Multiset.one_le_count_iff_mem.mpr (@mem_laid env hub n outOfTunnel (by simp [forwardRules]))
    have hcount := @count_up env hub n reach (env.quick.down (nodeHooks hub n reach) h.rest).1 outOfTunnel
      hpool hreach (by simp [forwardRules])
    rw [Multiset.count_add, ← h'.rest] at habort
    rw [hrest]
    omega
  · exact push_unreachable hpool hconf hreach

/-- A rule that is there twice stays so. -/
theorem push_of_broken (hpool : hub.poolCIDR.is4 = true) (h' : Broken env hub n h) :
    Broken env hub n (push env hub n h reach) := by
  obtain ⟨⟨old, hconf⟩, r, hr, htwice⟩ := h'
  by_cases hreach : ∀ s ∈ reach, reachable env n s = true
  · obtain ⟨hconf', hrest⟩ := push_of_up hconf (up_succeeds hpool hreach)
    refine ⟨⟨reach, hconf'⟩, r, hr, ?_⟩
    have hdown := @count_down env hub n reach h.rest _ (@kind_twice env hub r hr)
    have hup := @count_up env hub n reach (env.quick.down (nodeHooks hub n reach) h.rest).1 r hpool hreach
      (twice_mem hr)
    rw [hrest]
    omega
  · exact push_unreachable hpool hconf hreach

/-! ### The first one -/

theorem down_cleanHost : (env.quick.down (nodeHooks hub n reach) 0).1 = 0 := by
  refine Multiset.eq_zero_of_forall_notMem fun r hr => ?_
  have hle := @down_le env hub n reach 0 r
  rw [Multiset.count_zero] at hle
  exact absurd (Multiset.count_pos.mpr hr) (by omega)

/-- The first push to a clean host leaves the rules of its own file. -/
theorem push_cleanHost : push env hub n cleanHost reach =
    ⟨some (nodeHooks hub n reach), none, freshRules env hub n reach⟩ := by
  unfold push writeAndApply freshRules
  rw [← @down_cleanHost env hub n reach]
  rcases hup : env.quick.up (nodeHooks hub n reach) (env.quick.down (nodeHooks hub n reach) 0).1
    with ⟨m, ok⟩
  cases ok <;> simp [Faults.none, cleanHost, hup]

/-- A file whose subnets the node all takes lays its fixed rules and theirs. -/
theorem freshRules_of_reachable (hpool : hub.poolCIDR.is4 = true)
    (hreach : ∀ s ∈ reach, reachable env n s = true) :
    freshRules env hub n reach = laid env hub n + reachRules env n reach := by
  have hup := @up_laid env hub n reach 0 hpool hreach fun r hr => absurd hr (Multiset.notMem_zero r)
  rw [Multiset.add_zero] at hup
  exact congrArg Prod.fst hup

/-- A fresh start has no rule of every file twice. -/
theorem count_freshRules (hpool : hub.poolCIDR.is4 = true) {r : IptRule} (hr : kind r ≠ reachKind) :
    (freshRules env hub n reach).count r ≤ 1 := by
  by_cases hreach : ∀ s ∈ reach, reachable env n s = true
  · have hlaid := Multiset.le_iff_count.mp (@laid_le_fixed env hub n) r
    have hfixed := Multiset.nodup_iff_count_le_one.mp (@fixed_nodup env hub) r
    rw [freshRules_of_reachable hpool hreach, Multiset.count_add, count_reachRules hr]
    omega
  · rw [freshRules, (up_fails hpool hreach).2 r hr, Multiset.count_zero, Multiset.count_singleton]
    split <;> omega

/-- A host with a rule twice is not what a fresh one would be. -/
theorem fresh_of_broken (hpool : hub.poolCIDR.is4 = true) (h' : Broken env hub n h) :
    h.rest ≠ freshRules env hub n reach := by
  obtain ⟨-, r, hr, htwice⟩ := h'
  intro he
  have hone := @count_freshRules env hub n reach hpool _ (@kind_twice env hub r hr)
  rw [he] at htwice
  omega

/-- After a first file that did not come up, the teardown of the next one stops at its first line. -/
theorem push_after_failed (hpool : hub.poolCIDR.is4 = true)
    (hfirst : ¬ ∀ s ∈ first, reachable env n s = true) :
    Broken env hub n (push env hub n (push env hub n cleanHost first) reach) := by
  have hstart := @push_cleanHost env hub n first
  have hconf : (push env hub n cleanHost first).conf = some (nodeHooks hub n first) := by rw [hstart]
  by_cases hreach : ∀ s ∈ reach, reachable env n s = true
  · obtain ⟨hconf', hrest⟩ := push_of_up hconf (up_succeeds hpool hreach)
    refine ⟨⟨reach, hconf'⟩, poolRule hub, List.mem_cons_self, ?_⟩
    have hcount := (@up_fails env hub n first 0 hpool hfirst).2
    -- the failed `PostUp` got as far as the pool's rule and no further
    have hpoolCount := hcount (env.stored (poolRule hub)) (by rw [kind_stored]; exact kind_pool)
    -- so `PostDown` stops at its first line, the input rule, and leaves that rule there
    have hinput : env.stored inputRule ∉ freshRules env hub n first := by
      refine Multiset.count_eq_zero.mp ((hcount _ (by rw [kind_stored]; decide)).trans ?_)
      rw [Multiset.count_zero, Nat.zero_add, Multiset.count_eq_zero, Multiset.mem_singleton]
      intro he
      have hkind := kind_eq he
      have hclosed : kind (poolRule hub) = kind (poolRule demoHub) := rfl
      rw [hclosed] at hkind
      exact absurd hkind (by decide)
    have hdown : (env.quick.down (nodeHooks hub n reach) (freshRules env hub n first)).1 =
        freshRules env hub n first := by
      have hexec : env.exec (.delete inputRule) (freshRules env hub n first) =
          (freshRules env hub n first, false) := by
        simp [Env.exec, hinput, Multiset.erase_of_notMem]
      change (Script.run env.exec (lines false (nodeHooks hub n reach)) _).1 = _
      rw [lines_down, downHead, List.cons_append, List.cons_append, Script.run_cons_of_fail hexec rfl]
    -- and this `PostUp` adds it again
    have hup := @count_up env hub n reach (freshRules env hub n first) (poolRule hub) hpool hreach (by simp)
    have hrest' : (push env hub n cleanHost first).rest = freshRules env hub n first := by rw [hstart]
    rw [Multiset.count_zero, Multiset.count_singleton_self] at hpoolCount
    rw [hrest, hrest', hdown]
    change (freshRules env hub n first).count _ = 1 at hpoolCount
    omega
  · exact push_unreachable hpool hconf hreach

/-! ### Series -/

/-- No later push mends it. -/
theorem foldl_broken (hpool : hub.poolCIDR.is4 = true) (h' : Broken env hub n h) :
    Broken env hub n (rest.foldl (push env hub n) h) := by
  induction rest generalizing h with
  | nil => exact h'
  | cons reach rest ih => exact ih (push_of_broken hpool h')

/-- Pushes that stay within the first list of subnets keep its rules. -/
theorem foldl_aligned (hpool : hub.poolCIDR.is4 = true) (hfirst : ∀ s ∈ first, reachable env n s = true)
    (h' : Aligned env hub n first h) (hall : ∀ reach ∈ rest, sources reach ≤ sources first) :
    Aligned env hub n first (rest.foldl (push env hub n) h) := by
  induction rest generalizing h with
  | nil => exact h'
  | cons reach rest ih =>
    exact ih (push_of_le hpool hfirst h' (hall reach List.mem_cons_self))
      fun reach' hreach' => hall reach' (List.mem_cons_of_mem _ hreach')

/-- A push that names another subnet leaves a rule twice from then on. -/
theorem foldl_breaks (hpool : hub.poolCIDR.is4 = true) (hfirst : ∀ s ∈ first, reachable env n s = true)
    (h' : Aligned env hub n first h) (hsome : ¬ ∀ reach ∈ rest, sources reach ≤ sources first) :
    Broken env hub n (rest.foldl (push env hub n) h) := by
  induction rest generalizing h with
  | nil => exact absurd (fun reach hreach => absurd hreach List.not_mem_nil) hsome
  | cons reach rest ih =>
    by_cases hle : sources reach ≤ sources first
    · refine ih (push_of_le hpool hfirst h' hle) fun hall => hsome fun reach' hreach' => ?_
      exact (List.mem_cons.mp hreach').elim (fun he => he ▸ hle) (hall reach')
    · rw [List.foldl_cons]
      exact foldl_broken hpool (push_of_not_le hpool h' hle)

/-! ### A pool that iptables does not take -/

/-- With an IPv6 pool no file comes up, and nothing is laid. -/
theorem up_none (hpool : hub.poolCIDR.is4 = false) : env.quick.up (nodeHooks hub n reach) m = (m, false) := by
  have hsysctl : env.exec (.sysctl "net.ipv4.ip_forward=1") m = (m, true) := rfl
  have hadd : env.exec (.add false (poolRule hub)) m = (m, false) := by
    simp [Env.exec, installs_pool, hpool]
  change Script.run env.exec (lines true (nodeHooks hub n reach)) m = _
  rw [lines_up, Script.run_cons_of_ok hsysctl, List.map_append, List.map_cons, List.cons_append,
    List.cons_append, Script.run_cons_of_fail hadd rfl]

/-- With an IPv6 pool nothing is laid, however many pushes follow. -/
theorem foldl_none (hpool : hub.poolCIDR.is4 = false) (hconf : h.conf = some (nodeHooks hub n old))
    (h' : h.rest = 0) : (rest.foldl (push env hub n) h).rest = 0 := by
  induction rest generalizing h with
  | nil => exact h'
  | cons reach rest ih =>
    obtain ⟨hconf', hrest⟩ := push_of_up_fails hconf (congrArg Prod.snd (@up_none env hub n reach _ hpool))
    refine ih hconf' (hrest.trans ?_)
    rw [up_none hpool, up_none hpool, h', down_cleanHost]

/-! ## Results -/

/-- Two lists of linked subnets lay the same rules when their masked subnets are the same. -/
theorem reachRules_eq_iff : reachRules env n first = reachRules env n reach ↔ sources reach = sources first := by
  rw [le_antisymm_iff, le_antisymm_iff, reachRules_le_iff, reachRules_le_iff, and_comm]

/-- **A pushed configuration leaves what a fresh start would** exactly in the series that `Settles` says. -/
theorem fresh_iff (env : Env) (hub : Hub) (n : Node) (first : List Prefix) (rest : List (List Prefix)) :
    (applied env hub n (first :: rest)).rest =
      freshRules env hub n ((first :: rest).getLast (List.cons_ne_nil _ _)) ↔
      Settles env hub n first rest := by
  have hstart := @push_cleanHost env hub n first
  have happlied : applied env hub n (first :: rest) =
      rest.foldl (push env hub n) (push env hub n cleanHost first) := rfl
  rcases Bool.eq_false_or_eq_true hub.poolCIDR.is4 with hpool | hpool
  · -- an IPv4 pool: a single push is fresh, further ones depend on the first
    rcases rest with _ | ⟨next, rest⟩
    · rw [happlied, List.foldl_nil, hstart]
      exact iff_of_true rfl (Or.inr (Or.inl rfl))
    · have hsettles : Settles env hub n first (next :: rest) ↔
          (∀ s ∈ first, reachable env n s = true) ∧ (∀ reach ∈ next :: rest, sources reach ≤ sources first) ∧
            sources ((first :: next :: rest).getLast (List.cons_ne_nil _ _)) = sources first := by
        simp [Settles, hpool]
      rw [hsettles, happlied]
      by_cases hfirst : ∀ s ∈ first, reachable env n s = true
      · -- the first push came up
        have haligned : Aligned env hub n first (push env hub n cleanHost first) := by
          rw [hstart, freshRules_of_reachable hpool hfirst]
          exact ⟨⟨first, rfl⟩, rfl⟩
        by_cases hall : ∀ reach ∈ next :: rest, sources reach ≤ sources first
        · have hlast : sources ((first :: next :: rest).getLast (List.cons_ne_nil _ _)) ≤ sources first := by
            rcases List.mem_cons.mp (List.getLast_mem (List.cons_ne_nil first (next :: rest))) with he | hmem
            · rw [he]
            · exact hall _ hmem
          rw [(foldl_aligned hpool hfirst haligned hall).rest,
            freshRules_of_reachable hpool (reachable_of_le hfirst hlast), Multiset.add_right_inj,
            reachRules_eq_iff]
          exact ⟨fun he => ⟨hfirst, hall, he⟩, fun h => h.2.2⟩
        · -- some push names a subnet that the first did not
          have hbroken := foldl_breaks hpool hfirst haligned hall
          exact iff_of_false (fresh_of_broken hpool hbroken) fun h => hall h.2.1
      · -- the first push failed, and the second one breaks the host
        have hbroken := @foldl_broken env hub n _ rest hpool (@push_after_failed env hub n next first hpool hfirst)
        rw [List.foldl_cons]
        exact iff_of_false (fresh_of_broken hpool hbroken) fun h => hfirst h.1
  · -- an IPv6 pool: nothing is ever laid
    have hfresh : ∀ reach, freshRules env hub n reach = 0 := fun reach =>
      congrArg Prod.fst (up_none hpool)
    have hconf : (push env hub n cleanHost first).conf = some (nodeHooks hub n first) := by rw [hstart]
    have hrest : (push env hub n cleanHost first).rest = 0 := by rw [hstart]; exact hfresh first
    rw [happlied, foldl_none hpool hconf hrest, hfresh]
    exact iff_of_true rfl (Or.inl hpool)

/-! ### A link that is removed -/

/-- A host without the proxy, with all targets and any LAN interface. -/
def demoEnv : Env := ⟨"awg0", fun _ => true, rfl, false, fun _ => true⟩

/-- A home server behind one interface. -/
def demoNode : Node where
  name := "node1"
  address := .ofBytes 10 8 0 2
  subnets := [⟨.ofBytes 192 168 1 0, 24⟩]
  keys := ⟨"nodepriv", "nodepub"⟩
  lanIface := "eth0"
  preshared := ""
  isHub := false
  dns := ""
  domains := []

/-- The masquerade of a site whose link was removed stays. -/
theorem removed_link_stays :
    (applied demoEnv demoHub demoNode [[⟨.ofBytes 192 168 2 0, 24⟩], []]).rest ≠
      freshRules demoEnv demoHub demoNode [] := by
  have hpool : demoHub.poolCIDR.is4 = true := by decide
  have hfirst : ∀ s ∈ [(⟨.ofBytes 192 168 2 0, 24⟩ : Prefix)], reachable demoEnv demoNode s = true := by
    decide
  have haligned : Aligned demoEnv demoHub demoNode [⟨.ofBytes 192 168 2 0, 24⟩]
      (push demoEnv demoHub demoNode cleanHost [⟨.ofBytes 192 168 2 0, 24⟩]) := by
    rw [push_cleanHost, freshRules_of_reachable hpool hfirst]
    exact ⟨⟨_, rfl⟩, rfl⟩
  have hremoved := @push_of_le demoEnv demoHub demoNode [] _ _ hpool hfirst haligned (Multiset.zero_le _)
  change (push demoEnv demoHub demoNode (push demoEnv demoHub demoNode cleanHost _) []).rest ≠ _
  rw [hremoved.rest, freshRules_of_reachable hpool (by simp), ne_eq, Multiset.add_right_inj,
    reachRules_eq_iff]
  decide

end NodeAgent
end BeautyAwg
