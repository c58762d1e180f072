import BeautyAwg.Service.Correctness.ExitRouting

/-!
# `Service.Correctness.ExitPlan`: the plan of the exits

`exitPlan` lists a device for each node that is an exit and a rule for each route. For an IPv4 pool of at
least 16 leading bits the index of a node tells it from every other of the pool, so the tables keep the exits
apart, and both lists are the same in whatever order the routes come.

## Contents
- **Orders.** The two orders are total and transitive, and tell apart what is listed.
- **The plan.** `ExitPlanOf`; `exitPlan_correct`.
-/

namespace BeautyAwg
namespace Service

open Netip Awg Store PolicyRouting

/-! ## Orders -/

/-- What is sorted comes out the same in whatever order it is given. -/
theorem insertionSort_congr {α : Type} {r : α → α → Prop} [DecidableRel r] [Std.Total r] [IsTrans α r]
    {l l' : List α} (hanti : ∀ a ∈ l, ∀ b ∈ l, r a b → r b a → a = b) (h : l.Perm l') :
    l.insertionSort r = l'.insertionSort r := by
  have hperm : (l.insertionSort r).Perm (l'.insertionSort r) :=
    ((List.perm_insertionSort r l).trans h).trans (List.perm_insertionSort r l').symm
  -- two sorted permutations of one list are equal where the order is antisymmetric on it
  refine hperm.eq_of_pairwise (fun a b ha hb => ?_) (List.pairwise_insertionSort r l)
    (List.pairwise_insertionSort r l')
  exact hanti a ((List.mem_insertionSort r).mp ha) b (h.mem_iff.mpr ((List.mem_insertionSort r).mp hb))

instance : Std.Total ExitDevice.le where
  total d d' := by simpa [ExitDevice.le] using Addr.le_total d.remote d'.remote

instance : IsTrans ExitDevice ExitDevice.le where
  trans _ _ _ := Addr.le_trans

/-- Rules are ordered by their client and then by the text of their table. -/
theorem ExitRule.le_iff {x y : ExitRule} : x.le y ↔
    x.client.le y.client = true ∧ (x.client = y.client → toString x.table ≤ toString y.table) := by
  unfold ExitRule.le
  split
  · rename_i hne
    exact ⟨fun h => ⟨h, fun he => absurd he hne⟩, And.left⟩
  · rename_i he
    rw [not_not] at he
    refine ⟨fun h => ⟨?_, fun _ => h⟩, fun h => h.2 he⟩
    rw [he]
    simpa using Addr.le_total y.client y.client

instance : Std.Total ExitRule.le where
  total x y := by
    by_cases he : x.client = y.client
    · have hself : x.client.le x.client = true := by simpa using Addr.le_total x.client x.client
      rcases String.le_total (toString x.table) (toString y.table) with h | h
      · exact .inl (ExitRule.le_iff.mpr ⟨he ▸ hself, fun _ => h⟩)
      · exact .inr (ExitRule.le_iff.mpr ⟨he ▸ hself, fun _ => h⟩)
    · have htotal : x.client.le y.client = true ∨ y.client.le x.client = true := by
        simpa using Addr.le_total x.client y.client
      rcases htotal with h | h
      · exact .inl (ExitRule.le_iff.mpr ⟨h, fun h' => absurd h' he⟩)
      · exact .inr (ExitRule.le_iff.mpr ⟨h, fun h' => absurd h'.symm he⟩)

instance : IsTrans ExitRule ExitRule.le where
  trans x y z hxy hyz := by
    obtain ⟨hxy, hxy'⟩ := ExitRule.le_iff.mp hxy
    obtain ⟨hyz, hyz'⟩ := ExitRule.le_iff.mp hyz
    refine ExitRule.le_iff.mpr ⟨Addr.le_trans hxy hyz, fun he => ?_⟩
    have hmid : x.client = y.client := Addr.le_antisymm hxy (he ▸ hyz)
    exact String.le_trans (hxy' hmid) (hyz' (hmid.symm.trans he))

theorem toString_inj {m n : Nat} (h : toString m = toString n) : m = n := by
  have hdigits : Nat.toDigits 10 m = Nat.toDigits 10 n := by
    simpa [Nat.toList_repr] using congrArg String.toList h
  rw [← @Nat.ofDigitChars_ten_toDigits m, hdigits, Nat.ofDigitChars_ten_toDigits]

/-- Rules that stand level are the same. -/
theorem ExitRule.le_antisymm {x y : ExitRule} (hxy : x.le y) (hyx : y.le x) : x = y := by
  obtain ⟨hclient, htable⟩ := ExitRule.le_iff.mp hxy
  obtain ⟨hclient', htable'⟩ := ExitRule.le_iff.mp hyx
  have he : x.client = y.client := Addr.le_antisymm hclient hclient'
  -- tables are ordered as texts, and a number is determined by its text
  have ht : x.table = y.table := toString_inj (String.le_antisymm (htable he) (htable' he.symm))
  cases x
  cases y
  simp_all

/-! ## The plan -/

/-- What the two lists are meant to be; `order` is the routes as the rules list them. -/
structure ExitPlanOf (routes : List ExitRoute) (devs : List ExitDevice) (rules : List ExitRule)
    (order : List ExitRoute) : Prop where
  sorted : devs.Pairwise fun d d' => d.remote.le d'.remote = true
  once : (devs.map ExitDevice.remote).Nodup
  remotes : ∀ a, (∃ d ∈ devs, d.remote = a) ↔ ∃ r ∈ routes, r.node = a
  named : ∀ d ∈ devs, d.name.exitName.isSome = true
  names : (devs.map fun d => d.name.exitName).Nodup
  tables : (devs.map fun d => toString d.table).Nodup
  perm : order.Perm routes
  rule : List.Forall₂ (fun r x => x.client = r.client ∧ ∃ d ∈ devs, d.remote = r.node ∧ d.table = x.table) order rules
  sortedRules : rules.Pairwise fun x y =>
    x.client.le y.client = true ∧ (x.client = y.client → toString x.table ≤ toString y.table)
  shared : ∀ p ∈ order.zip rules, ∀ q ∈ order.zip rules, p.2.table = q.2.table ↔ p.1.node = q.1.node
  devRange : ∀ d ∈ devs, 1000 ≤ d.table ∧ d.table ≤ 66535
  ruleRange : ∀ x ∈ rules, 1000 ≤ x.table ∧ x.table ≤ 66535

/-- The routes are those of clients and nodes of an IPv4 pool of at least 16 leading bits. -/
structure InPool (pool : Prefix) (routes : List ExitRoute) : Prop where
  is4 : pool.is4 = true
  bits : 16 ≤ pool.bits
  client : ∀ r ∈ routes, pool.contains r.client = true
  node : ∀ r ∈ routes, pool.contains r.node = true

/-- The index of an IPv4 address. -/
def indexOf (node : Addr) : Nat := (exitIndex node).getD 0

/-- The exit device of a node in the pool. -/
def deviceOf (node : Addr) : ExitDevice := ⟨.exit (indexOf node), node, exitTableBase + indexOf node⟩

/-- The rule of a route to a node in the pool. -/
def ruleOf (r : ExitRoute) : ExitRule := ⟨r.client, exitTableBase + indexOf r.node⟩

section
variable {pool : Prefix} {routes : List ExitRoute}

/-- Every address of an IPv4 pool has an index. -/
theorem exitIndex_of_pool (hpool : pool.is4 = true) {a : Addr} (ha : pool.contains a = true) :
    exitIndex a = some (indexOf a) := by
  obtain ⟨y, rfl⟩ := v4_of_contains hpool ha
  rfl

theorem indexOf_lt (a : Addr) : indexOf a < 65536 := by
  unfold indexOf exitIndex
  cases a.as4 with
  | none => decide
  | some b => exact Nat.mod_lt _ (by omega)

/-- The exits' tables lie between 1000 and 66535. -/
theorem table_range (a : Addr) : 1000 ≤ exitTableBase + indexOf a ∧ exitTableBase + indexOf a ≤ 66535 := by
  have := indexOf_lt a
  unfold exitTableBase
  omega

/-- In a pool of at most sixteen host bits two addresses have different indices. -/
theorem indexOf_inj (hpool : pool.is4 = true) (hbits : 16 ≤ pool.bits) {a b : Addr} (ha : pool.contains a = true)
    (hb : pool.contains b = true) (h : indexOf a = indexOf b) : a = b := by
  obtain ⟨y, rfl⟩ := v4_of_contains hpool ha
  apply exitIndex_inj hbits ha ha hb
  rw [exitIndex_of_pool hpool ha, exitIndex_of_pool hpool hb, h]

/-- For addresses of the pool the plan is the sorted list of devices, one for each node, and of rules. -/
theorem exitPlan_eq (h : InPool pool routes) : exitPlan routes =
    some (((routes.map ExitRoute.node).dedup.map deviceOf).insertionSort ExitDevice.le,
      (routes.map ruleOf).insertionSort ExitRule.le) := by
  have hindex : ∀ r ∈ routes, exitIndex r.node = some (indexOf r.node) := fun r hr =>
    exitIndex_of_pool h.is4 (h.node r hr)
  have hdevs : (routes.map ExitRoute.node).dedup.filterMap exitDevice =
      (routes.map ExitRoute.node).dedup.map deviceOf := by
    rw [← @List.filterMap_eq_map _ _ deviceOf]
    refine List.filterMap_congr fun a ha => ?_
    obtain ⟨r, hr, rfl⟩ := List.mem_map.mp (List.mem_dedup.mp ha)
    unfold exitDevice
    rw [hindex r hr]
    rfl
  have hrules : routes.filterMap exitRule = routes.map ruleOf := by
    rw [← @List.filterMap_eq_map _ _ ruleOf]
    refine List.filterMap_congr fun r hr => ?_
    unfold exitRule
    rw [hindex r hr]
    rfl
  unfold exitPlan
  rw [if_pos (List.all_eq_true.mpr fun r hr => by rw [hindex r hr]; rfl), hdevs, hrules]

theorem remote_deviceOf (as : List Addr) : (as.map deviceOf).map ExitDevice.remote = as := by
  rw [List.map_map]
  exact List.map_id as

/-- The devices, before they are sorted and after. -/
theorem perm_devs (as : List Addr) :
    ((as.map deviceOf).insertionSort ExitDevice.le).map ExitDevice.remote |>.Perm as := by
  have h := (List.perm_insertionSort ExitDevice.le (as.map deviceOf)).map ExitDevice.remote
  rwa [remote_deviceOf] at h

/-- The order of the nodes plays no part in the devices. -/
theorem devs_of_perm {as bs : List Addr} (h : as.Perm bs) :
    (as.map deviceOf).insertionSort ExitDevice.le = (bs.map deviceOf).insertionSort ExitDevice.le := by
  refine insertionSort_congr (fun d hd d' hd' hle hle' => ?_) (h.map deviceOf)
  obtain ⟨a, -, rfl⟩ := List.mem_map.mp hd
  obtain ⟨b, -, rfl⟩ := List.mem_map.mp hd'
  exact congrArg deviceOf (Addr.le_antisymm hle hle')

/-- The order of the routes plays no part in the rules. -/
theorem rules_of_perm {rs rs' : List ExitRoute} (h : rs.Perm rs') :
    (rs.map ruleOf).insertionSort ExitRule.le = (rs'.map ruleOf).insertionSort ExitRule.le :=
  insertionSort_congr (fun _ _ _ _ => ExitRule.le_antisymm) (h.map ruleOf)

/-- The routes in the order of their rules. -/
def routeOrder (routes : List ExitRoute) : List ExitRoute :=
  routes.insertionSort fun r r' => (ruleOf r).le (ruleOf r')

theorem rules_eq (routes : List ExitRoute) :
    (routes.map ruleOf).insertionSort ExitRule.le = (routeOrder routes).map ruleOf :=
  (List.map_insertionSort _ _ ruleOf routes fun _ _ _ _ => Iff.rfl).symm

/-- So the plan is what its description says. -/
theorem exitPlanOf (h : InPool pool routes) :
    ExitPlanOf routes (((routes.map ExitRoute.node).dedup.map deviceOf).insertionSort ExitDevice.le)
      ((routes.map ruleOf).insertionSort ExitRule.le) (routeOrder routes) := by
  obtain ⟨devs, hdevs⟩ : ∃ devs, ((routes.map ExitRoute.node).dedup.map deviceOf).insertionSort ExitDevice.le = devs :=
    ⟨_, rfl⟩
  have hmem : ∀ d, d ∈ devs ↔ ∃ r ∈ routes, deviceOf r.node = d := by
    intro d
    rw [← hdevs, List.mem_insertionSort]
    simp [List.mem_dedup]
  have honce : (devs.map ExitDevice.remote).Nodup := by
    rw [← hdevs]
    exact (perm_devs _).nodup_iff.mpr (List.nodup_dedup _)
  -- what is the same for no two indexes is the same for no two devices
  have hdistinct : ∀ {β : Type} (f : ExitDevice → β),
      (∀ a b, f (deviceOf a) = f (deviceOf b) → indexOf a = indexOf b) → (devs.map f).Nodup := by
    intro β f hf
    refine List.Nodup.map_on (fun d hd d' hd' he => ?_) honce.of_map
    obtain ⟨r, hr, rfl⟩ := (hmem d).mp hd
    obtain ⟨r', hr', rfl⟩ := (hmem d').mp hd'
    rw [indexOf_inj h.is4 h.bits (h.node r hr) (h.node r' hr') (hf _ _ he)]
  have hperm : (routeOrder routes).Perm routes := List.perm_insertionSort _ _
  have hsortedRules := List.pairwise_insertionSort ExitRule.le (routes.map ruleOf)
  rw [rules_eq] at hsortedRules
  rw [hdevs, rules_eq]
  constructor
  case sorted =>
    rw [← hdevs]
    exact List.pairwise_insertionSort ExitDevice.le _
  case once => exact honce
  case remotes =>
    intro a
    constructor
    · rintro ⟨d, hd, rfl⟩
      obtain ⟨r, hr, rfl⟩ := (hmem d).mp hd
      exact ⟨r, hr, rfl⟩
    · rintro ⟨r, hr, rfl⟩
      exact ⟨deviceOf r.node, (hmem _).mpr ⟨r, hr, rfl⟩, rfl⟩
  case named =>
    intro d hd
    obtain ⟨r, -, rfl⟩ := (hmem d).mp hd
    rfl
  case names =>
    refine hdistinct _ fun a b he => toString_inj ?_
    have htext : exitDevPrefix ++ toString (indexOf a) = exitDevPrefix ++ toString (indexOf b) := Option.some.inj he
    exact (String.append_right_inj exitDevPrefix).mp htext
  case tables =>
    exact hdistinct _ fun a b he => Nat.add_left_cancel (toString_inj he)
  case perm => exact hperm
  case rule =>
    rw [List.forall₂_map_right_iff, List.forall₂_same]
    intro r hr
    exact ⟨rfl, deviceOf r.node, (hmem _).mpr ⟨r, hperm.mem_iff.mp hr, rfl⟩, rfl, rfl⟩
  case sortedRules => exact hsortedRules.imp ExitRule.le_iff.mp
  case shared =>
    have hpair : ∀ p ∈ (routeOrder routes).zip ((routeOrder routes).map ruleOf),
        p.1 ∈ routes ∧ p.2 = ruleOf p.1 := by
      intro p hp
      rw [← List.map_prod_left_eq_zip, List.mem_map] at hp
      obtain ⟨r, hr, rfl⟩ := hp
      exact ⟨hperm.mem_iff.mp hr, rfl⟩
    intro p hp q hq
    obtain ⟨hp, hrule⟩ := hpair p hp
    obtain ⟨hq, hrule'⟩ := hpair q hq
    rw [hrule, hrule']
    constructor
    · intro he
      exact indexOf_inj h.is4 h.bits (h.node _ hp) (h.node _ hq) (Nat.add_left_cancel he)
    · intro he
      exact congrArg (fun a => exitTableBase + indexOf a) he
  case devRange =>
    intro d hd
    obtain ⟨r, -, rfl⟩ := (hmem d).mp hd
    exact table_range r.node
  case ruleRange =>
    intro x hx
    obtain ⟨r, -, rfl⟩ := List.mem_map.mp hx
    exact table_range r.node

/-- **The plan of the exits**, the same for the routes in any order. -/
theorem exitPlan_correct (pool : Prefix) (routes : List ExitRoute) (h : InPool pool routes) :
    ∃ devs rules order, exitPlan routes = some (devs, rules) ∧ ExitPlanOf routes devs rules order ∧
      ∀ routes' : List ExitRoute, routes'.Perm routes → exitPlan routes' = some (devs, rules) := by
  refine ⟨_, _, routeOrder routes, exitPlan_eq h, exitPlanOf h, fun routes' hperm => ?_⟩
  have h' : InPool pool routes' := ⟨h.is4, h.bits, fun r hr => h.client r (hperm.mem_iff.mp hr),
    fun r hr => h.node r (hperm.mem_iff.mp hr)⟩
  rw [exitPlan_eq h', devs_of_perm (hperm.map ExitRoute.node).dedup, rules_of_perm hperm]

end

/-- Three clients and two exits. -/
def demoRoutes : List ExitRoute :=
  [⟨.ofBytes 10 8 0 6, .ofBytes 10 8 0 3⟩, ⟨.ofBytes 10 8 0 7, .ofBytes 10 8 0 2⟩,
    ⟨.ofBytes 10 8 0 5, .ofBytes 10 8 0 2⟩]

/-- Three routes to two nodes: two devices, three rules. -/
theorem exitPlan_correct_three : ∃ devs rules order, exitPlan demoRoutes = some (devs, rules) ∧
    ExitPlanOf demoRoutes devs rules order ∧
      ∀ routes' : List ExitRoute, routes'.Perm demoRoutes → exitPlan routes' = some (devs, rules) :=
  exitPlan_correct demoHub.poolCIDR demoRoutes ⟨by decide, by decide, by decide, by decide⟩

example : exitPlan demoRoutes = some
    ([⟨.exit 2, .ofBytes 10 8 0 2, 1002⟩, ⟨.exit 3, .ofBytes 10 8 0 3, 1003⟩],
      [⟨.ofBytes 10 8 0 5, 1002⟩, ⟨.ofBytes 10 8 0 6, 1003⟩, ⟨.ofBytes 10 8 0 7, 1002⟩]) := by decide

end Service
end BeautyAwg
