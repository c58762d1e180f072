import Mathlib.Data.List.Sort
import BeautyAwg.Lib.LongestMatch

/-!
# `PolicyRouting`: policy routing, and the commands that set it up

A packet is looked up rule by rule in the order of the rules' preferences. A rule that applies to it names a
table, and the first such table with a route for the destination decides. The commands are those of `ip rule`,
`ip route`, `ip link` and `ip addr`: each changes one thing, or fails and changes nothing.

## Contents
- **Lookup.** `Kernel.lookup` in one table, `Kernel.route` through the rules; `exists_route`, `rule_of_route`.
- **Commands.** `Cmd.exec`.
- **Rules of one preference.** `Kernel.rulesAt`: a queue, which adding a rule lengthens at its end
  and deleting one shortens at its front (`rulesAt_exec`).
- **Devices of one name.** `Kernel.linksAt`; `linksAt_exec`. A device that was added is `Kernel.Down` until it
  is set up (`down_exec`, `keeps_down`).
-/

namespace PolicyRouting

open Netip

/-- `from src to dst lookup table`, at a preference; a prefix that is absent applies to every address. -/
structure Rule (τ : Type) where
  pref : Nat
  src : Option Prefix
  dst : Option Prefix
  table : τ
  deriving DecidableEq, Repr

/-- A route of one table. -/
structure Route (τ δ : Type) where
  table : τ
  dst : Prefix
  dev : δ
  deriving DecidableEq, Repr

/-- A device; `tunnel` has the ends of an IPIP tunnel, the near one first. -/
structure Link (δ : Type) where
  dev : δ
  tunnel : Option (Addr × Addr)
  up : Bool
  addrs : List Addr
  deriving DecidableEq, Repr

/-- The policy rules by preference, the routes of all tables, and the devices. -/
structure Kernel (τ δ : Type) where
  rules : List (Rule τ)
  routes : List (Route τ δ)
  links : List (Link δ)
  deriving DecidableEq, Repr

variable {τ δ : Type}

/-- The destination of a default route. -/
def everywhere : Prefix := ⟨.v4 0, 0⟩

theorem everywhere_contains (y : BitVec 32) : everywhere.contains (.v4 y) = true := by
  apply contains_v4.mpr
  refine ⟨0, rfl, Nat.zero_le _, ?_⟩
  have hy := y.isLt
  simp only [everywhere, Nat.sub_zero]
  rw [Nat.div_eq_of_lt (by simp), Nat.div_eq_of_lt hy]

/-! ## Lookup -/

/-- The rule is for packets with these ends. -/
def Rule.applies (r : Rule τ) (src dst : Addr) : Bool :=
  (r.src.all fun p => p.contains src) && r.dst.all fun p => p.contains dst

namespace Kernel

/-- Where a table sends the destination: by the longest prefix that holds it. -/
def lookup [DecidableEq τ] (k : Kernel τ δ) (t : τ) (dst : Addr) : Option δ :=
  longestMatch ((k.routes.filter fun r => r.table = t).map fun r => (r.dst, r.dev)) dst

/-- The device a packet leaves by. -/
def route [DecidableEq τ] (k : Kernel τ δ) (src dst : Addr) : Option δ :=
  k.rules.findSome? fun r => if r.applies src dst then k.lookup r.table dst else none

/-- The rules stand in the order of their preferences. -/
def Sorted (k : Kernel τ δ) : Prop := k.rules.Pairwise fun r r' => r.pref ≤ r'.pref

/-- The rules of one preference, in the order in which they are consulted. -/
def rulesAt (k : Kernel τ δ) (pref : Nat) : List (Rule τ) := k.rules.filter fun r => r.pref = pref

/-- The devices under one name. -/
def linksAt [DecidableEq δ] (k : Kernel τ δ) (dev : δ) : List (Link δ) := k.links.filter fun l => l.dev = dev

end Kernel

/-- The rules at a preference are those of the kernel with that preference. -/
theorem mem_rulesAt {k : Kernel τ δ} {r : Rule τ} {pref : Nat} :
    r ∈ k.rulesAt pref ↔ r ∈ k.rules ∧ r.pref = pref := by
  simp [Kernel.rulesAt]

section Lookup

variable [DecidableEq τ] {k : Kernel τ δ} {t : τ} {src dst : Addr}

/-- A table whose routes for an address agree has their device. -/
theorem lookup_eq {dev : δ} (hsome : ∃ r ∈ k.routes, r.table = t ∧ r.dst.contains dst = true)
    (hall : ∀ r ∈ k.routes, r.table = t → r.dst.contains dst = true → r.dev = dev) :
    k.lookup t dst = some dev := by
  apply longestMatch_eq
  · obtain ⟨r, hr, ht, hc⟩ := hsome
    exact ⟨(r.dst, r.dev), List.mem_map_of_mem (List.mem_filter.mpr ⟨hr, by simpa using ht⟩), hc⟩
  · intro e he hc
    obtain ⟨r, hr, rfl⟩ := List.mem_map.mp he
    obtain ⟨hr, ht⟩ := List.mem_filter.mp hr
    exact hall r hr (by simpa using ht) hc

/-- A table sends a packet out by a route of its own that holds the destination. -/
theorem route_of_lookup {dev : δ} (h : k.lookup t dst = some dev) :
    ∃ r ∈ k.routes, r.table = t ∧ r.dst.contains dst = true ∧ r.dev = dev := by
  obtain ⟨e, he, hc, hdev⟩ := mem_of_longestMatch h
  obtain ⟨r, hr, rfl⟩ := List.mem_map.mp he
  obtain ⟨hr, ht⟩ := List.mem_filter.mp hr
  exact ⟨r, hr, by simpa using ht, hc, hdev⟩

/-- A route that holds the destination makes its table send the packet somewhere. -/
theorem exists_lookup {r : Route τ δ} (hr : r ∈ k.routes) (ht : r.table = t) (hc : r.dst.contains dst = true) :
    ∃ dev, k.lookup t dst = some dev := by
  have hmem : r ∈ k.routes.filter fun r => r.table = t := List.mem_filter.mpr ⟨hr, by simpa using ht⟩
  exact exists_longestMatch (List.mem_map_of_mem hmem) hc

/-- What decides is a rule that applies. -/
theorem rule_of_route {dev : δ} (h : k.route src dst = some dev) :
    ∃ r ∈ k.rules, r.applies src dst = true ∧ k.lookup r.table dst = some dev := by
  obtain ⟨r, hr, hrd⟩ := List.exists_of_findSome?_eq_some h
  split at hrd
  · rename_i happ
    exact ⟨r, hr, happ, hrd⟩
  · exact absurd hrd (by simp)

/-- **First match with a route.** A rule that applies and finds a route makes sure that the packet leaves, and
    by a device that some rule consulted no later finds. -/
theorem exists_route {P : δ → Prop} {dev : δ} {r : Rule τ} (hsorted : k.Sorted) (hr : r ∈ k.rules)
    (happ : r.applies src dst = true) (hdev : k.lookup r.table dst = some dev)
    (hall : ∀ r' ∈ k.rules, r'.pref ≤ r.pref → r'.applies src dst = true →
      ∀ dev', k.lookup r'.table dst = some dev' → P dev') :
    ∃ dev', k.route src dst = some dev' ∧ P dev' := by
  unfold Kernel.Sorted at hsorted
  unfold Kernel.route
  -- along the rules before `r`, which are the ones of a preference that is no larger
  obtain ⟨before, after, hrules⟩ := List.append_of_mem hr
  rw [hrules, List.pairwise_append] at hsorted
  rw [hrules] at hall
  rw [hrules, List.findSome?_append, List.findSome?_cons]
  simp only [happ, if_true, hdev]
  cases hfirst : before.findSome? fun r => if r.applies src dst then k.lookup r.table dst else none with
  | none =>
    refine ⟨dev, rfl, hall r ?_ (Nat.le_refl _) happ dev hdev⟩
    exact List.mem_append_right _ List.mem_cons_self
  | some dev' =>
    obtain ⟨r', hr', hfound⟩ := List.exists_of_findSome?_eq_some hfirst
    split at hfound
    · rename_i happ'
      have hle := hsorted.2.2 r' hr' r List.mem_cons_self
      exact ⟨dev', rfl, hall r' (List.mem_append_left _ hr') hle happ' dev' hfound⟩
    · exact absurd hfound (by simp)

/-- When they all find the same device, that device decides. -/
theorem route_eq_some {dev : δ} {r : Rule τ} (hsorted : k.Sorted) (hr : r ∈ k.rules)
    (happ : r.applies src dst = true) (hdev : k.lookup r.table dst = some dev)
    (hsame : ∀ r' ∈ k.rules, r'.pref ≤ r.pref → r'.applies src dst = true →
      k.lookup r'.table dst = some dev) : k.route src dst = some dev := by
  obtain ⟨dev', hroute, rfl⟩ : ∃ dev', k.route src dst = some dev' ∧ dev' = dev := by
    apply exists_route hsorted hr happ hdev
    intro r' hr' hle happ' dev' hdev'
    exact Option.some.inj (hdev'.symm.trans (hsame r' hr' hle happ'))
  exact hroute

end Lookup

/-! ## Commands -/

/-- What the kernel is asked to change. -/
inductive Cmd (τ δ : Type) where
  | addRule (r : Rule τ)
  | delRule (pref : Nat)
  | replaceRoute (r : Route τ δ)
  | delRoute (r : Route τ δ)
  | addTunnel (dev : δ) (near far : Addr)
  | setUp (dev : δ)
  | replaceAddr (dev : δ) (a : Addr)
  | delLink (dev : δ)
  deriving DecidableEq, Repr

variable [DecidableEq τ] [DecidableEq δ]

/-- There is a device under the name. -/
def Kernel.hasLink (k : Kernel τ δ) (dev : δ) : Bool := k.links.any fun l => l.dev = dev

/-- And it is set up. -/
def Kernel.isUp (k : Kernel τ δ) (dev : δ) : Bool := k.links.any fun l => decide (l.dev = dev) && l.up

/-- Replace the routes of one table and destination. -/
def Kernel.setRoute (k : Kernel τ δ) (r : Route τ δ) : Kernel τ δ :=
  { k with routes := (k.routes.filter fun x => ¬ (x.table = r.table ∧ x.dst = r.dst)) ++ [r] }

/-- The device under the name, changed. -/
def Kernel.mapLink (k : Kernel τ δ) (dev : δ) (f : Link δ → Link δ) : Kernel τ δ :=
  { k with links := k.links.map fun l => if l.dev = dev then f l else l }

/-- Whether a command succeeds: a rule or a device must not be there yet, a route needs a device that is up,
    and what is changed or deleted must be there. -/
def Cmd.allowed : Cmd τ δ → Kernel τ δ → Bool
  | addRule r, k => decide (r ∉ k.rules)
  | delRule pref, k => k.rules.any fun r => r.pref = pref
  | replaceRoute r, k => k.isUp r.dev
  | delRoute r, k => decide (r ∈ k.routes)
  | addTunnel dev near far, k => k.links.all fun l => l.dev ≠ dev ∧ l.tunnel ≠ some (near, far)
  | setUp dev, k => k.hasLink dev
  | replaceAddr dev _, k => k.hasLink dev
  | delLink dev, k => k.hasLink dev

/-- What a command does. A rule that is added comes after those of its preference, the first rule of a
    preference is the one deleted, and a device takes its routes with it. -/
def Cmd.effect : Cmd τ δ → Kernel τ δ → Kernel τ δ
  | addRule r, k => { k with rules := k.rules.orderedInsert (fun r r' => r.pref < r'.pref) r }
  | delRule pref, k => { k with rules := k.rules.eraseP fun r => r.pref = pref }
  | replaceRoute r, k => k.setRoute r
  | delRoute r, k => { k with routes := k.routes.erase r }
  | addTunnel dev near far, k => { k with links := k.links ++ [⟨dev, some (near, far), false, []⟩] }
  | setUp dev, k => k.mapLink dev fun l => { l with up := true }
  | replaceAddr dev a, k =>
    k.mapLink dev fun l => { l with addrs := if a ∈ l.addrs then l.addrs else l.addrs ++ [a] }
  | delLink dev, k =>
    { k with links := k.links.filter fun l => l.dev ≠ dev, routes := k.routes.filter fun r => r.dev ≠ dev }

/-- The kernel after the command, unless it refuses it. -/
def Cmd.exec (c : Cmd τ δ) (k : Kernel τ δ) : Option (Kernel τ δ) :=
  if c.allowed k then some (c.effect k) else none

variable {k k' : Kernel τ δ} {c : Cmd τ δ}

/-- A command goes through exactly when it is allowed, and then has its effect. -/
theorem exec_eq_some : c.exec k = some k' ↔ c.allowed k = true ∧ k' = c.effect k := by
  unfold Cmd.exec
  split
  · rename_i h
    simp [h, eq_comm]
  · rename_i h
    simp [h]

/-! ### What a command can change -/

/-- A rule of the new state was there or is the one just added. -/
theorem mem_rules_exec {r : Rule τ} (h : c.exec k = some k') (hr : r ∈ k'.rules) :
    r ∈ k.rules ∨ c = .addRule r := by
  obtain ⟨-, rfl⟩ := exec_eq_some.mp h
  cases c with
  | addRule x => exact ((List.mem_orderedInsert _).mp hr).elim (fun he => .inr (by rw [he])) .inl
  | delRule pref => exact .inl (List.mem_of_mem_eraseP hr)
  | _ => exact .inl hr

/-- Only deleting its preference takes a rule away. -/
theorem keeps_rule {r : Rule τ} (h : c.exec k = some k') (hr : r ∈ k.rules) (hc : c ≠ .delRule r.pref) :
    r ∈ k'.rules := by
  obtain ⟨-, rfl⟩ := exec_eq_some.mp h
  cases c with
  | addRule x => exact (List.mem_orderedInsert _).mpr (.inr hr)
  | delRule pref =>
    apply (List.mem_eraseP_of_neg ?_).mpr hr
    intro hp
    exact hc (by rw [of_decide_eq_true hp])
  | _ => exact hr

/-- A route of the new state was there or is the one just put in. -/
theorem mem_routes_exec {r : Route τ δ} (h : c.exec k = some k') (hr : r ∈ k'.routes) :
    r ∈ k.routes ∨ c = .replaceRoute r := by
  obtain ⟨-, rfl⟩ := exec_eq_some.mp h
  cases c with
  | replaceRoute x =>
    rcases List.mem_append.mp hr with hr | hr
    · exact .inl (List.mem_filter.mp hr).1
    · exact .inr (by rw [List.mem_singleton.mp hr])
  | delRoute x => exact .inl (List.mem_of_mem_erase hr)
  | delLink dev => exact .inl (List.mem_filter.mp hr).1
  | _ => exact .inl hr

/-- A route stays, unless it is replaced or deleted or goes with its device. -/
theorem keeps_route {r : Route τ δ} (h : c.exec k = some k') (hr : r ∈ k.routes)
    (hreplace : ∀ x, c = .replaceRoute x → r.table = x.table → r.dst ≠ x.dst) (hdel : c ≠ .delRoute r)
    (hlink : c ≠ .delLink r.dev) : r ∈ k'.routes := by
  obtain ⟨-, rfl⟩ := exec_eq_some.mp h
  cases c with
  | replaceRoute x =>
    refine List.mem_append_left _ (List.mem_filter.mpr ⟨hr, ?_⟩)
    simpa only [decide_eq_true_eq, not_and] using hreplace x rfl
  | delRoute x =>
    apply (List.mem_erase_of_ne ?_).mpr hr
    intro he
    exact hdel (by rw [he])
  | delLink dev =>
    refine List.mem_filter.mpr ⟨hr, decide_eq_true ?_⟩
    intro he
    exact hlink (by rw [he])
  | _ => exact hr

/-- A route that was put in is there, through a device that is. -/
theorem mem_replaceRoute {r : Route τ δ} (h : (Cmd.replaceRoute r).exec k = some k') :
    r ∈ k'.routes ∧ ∃ l ∈ k'.links, l.dev = r.dev := by
  obtain ⟨hup, rfl⟩ := exec_eq_some.mp h
  refine ⟨List.mem_append_right _ (List.mem_singleton.mpr rfl), ?_⟩
  obtain ⟨l, hl, hdev⟩ := List.any_eq_true.mp hup
  rw [Bool.and_eq_true, decide_eq_true_eq] at hdev
  exact ⟨l, hl, hdev.1⟩

/-- Where a device comes from: it was there, under the same ends, or it was added. -/
theorem mem_links_exec {l : Link δ} (h : c.exec k = some k') (hl : l ∈ k'.links) :
    (∃ l' ∈ k.links, l'.dev = l.dev ∧ l'.tunnel = l.tunnel) ∨
      ∃ near far, c = .addTunnel l.dev near far ∧ l.tunnel = some (near, far) := by
  obtain ⟨-, rfl⟩ := exec_eq_some.mp h
  cases c with
  | addTunnel dev near far =>
    rcases List.mem_append.mp hl with hl | hl
    · exact .inl ⟨l, hl, rfl, rfl⟩
    · obtain rfl := List.mem_singleton.mp hl
      exact .inr ⟨near, far, rfl, rfl⟩
  | delLink dev => exact .inl ⟨l, (List.mem_filter.mp hl).1, rfl, rfl⟩
  | setUp dev =>
    obtain ⟨l', hl', rfl⟩ := List.mem_map.mp hl
    exact .inl ⟨l', hl', by split <;> rfl, by split <;> rfl⟩
  | replaceAddr dev a =>
    obtain ⟨l', hl', rfl⟩ := List.mem_map.mp hl
    exact .inl ⟨l', hl', by split <;> rfl, by split <;> rfl⟩
  | _ => exact .inl ⟨l, hl, rfl, rfl⟩

/-- A device stays unless it is deleted. -/
theorem keeps_link {dev : δ} (h : c.exec k = some k') (hl : ∃ l ∈ k.links, l.dev = dev)
    (hc : c ≠ .delLink dev) : ∃ l ∈ k'.links, l.dev = dev := by
  obtain ⟨-, rfl⟩ := exec_eq_some.mp h
  obtain ⟨l, hl, rfl⟩ := hl
  cases c with
  | addTunnel dev near far => exact ⟨l, List.mem_append_left _ hl, rfl⟩
  | delLink dev =>
    refine ⟨l, List.mem_filter.mpr ⟨hl, decide_eq_true ?_⟩, rfl⟩
    intro he
    exact hc (by rw [he])
  | setUp dev => exact ⟨_, List.mem_map_of_mem hl, by split <;> rfl⟩
  | replaceAddr dev a => exact ⟨_, List.mem_map_of_mem hl, by split <;> rfl⟩
  | _ => exact ⟨l, hl, rfl⟩

/-! ### Rules of one preference -/

omit [DecidableEq τ] in
/-- A rule is inserted behind those of its preference, which keeps the order. -/
theorem pairwise_orderedInsert {rules : List (Rule τ)} {r : Rule τ}
    (h : rules.Pairwise fun r r' => r.pref ≤ r'.pref) :
    (rules.orderedInsert (fun r r' => r.pref < r'.pref) r).Pairwise fun r r' => r.pref ≤ r'.pref := by
  induction rules with
  | nil => exact List.pairwise_singleton _ _
  | cons x rules ih =>
    rw [List.pairwise_cons] at h
    rw [List.orderedInsert]
    split
    · rename_i hlt
      refine List.pairwise_cons.mpr ⟨fun y hy => ?_, List.pairwise_cons.mpr h⟩
      rcases List.mem_cons.mp hy with rfl | hy
      · exact Nat.le_of_lt hlt
      · exact (Nat.le_of_lt hlt).trans (h.1 y hy)
    · rename_i hge
      refine List.pairwise_cons.mpr ⟨fun y hy => ?_, ih h.2⟩
      rcases (List.mem_orderedInsert _).mp hy with rfl | hy
      · exact Nat.le_of_not_lt hge
      · exact h.1 y hy

/-- No command breaks the order of the rules. -/
theorem exec_sorted (h : c.exec k = some k') (hs : k.Sorted) : k'.Sorted := by
  obtain ⟨-, rfl⟩ := exec_eq_some.mp h
  cases c with
  | addRule x => exact pairwise_orderedInsert hs
  | delRule pref => exact List.Pairwise.sublist List.eraseP_sublist hs
  | _ => exact hs

/-- What a command does to the rules of one preference. -/
def Cmd.onRules (pref : Nat) : Cmd τ δ → List (Rule τ) → List (Rule τ)
  | addRule r, rules => if r.pref = pref then rules ++ [r] else rules
  | delRule p, rules => if p = pref then rules.tail else rules
  | _, rules => rules

omit [DecidableEq τ] in
/-- Inserting a rule changes the rules at its own preference alone. -/
theorem filter_orderedInsert {rules : List (Rule τ)} {r : Rule τ} {pref : Nat}
    (h : rules.Pairwise fun r r' => r.pref ≤ r'.pref) :
    ((rules.orderedInsert (fun r r' => r.pref < r'.pref) r).filter fun x => x.pref = pref) =
      if r.pref = pref then (rules.filter fun x => x.pref = pref) ++ [r]
      else rules.filter fun x => x.pref = pref := by
  induction rules with
  | nil => by_cases hr : r.pref = pref <;> simp [hr]
  | cons x rules ih =>
    rw [List.pairwise_cons] at h
    rw [List.orderedInsert]
    split
    · rename_i hlt
      by_cases hr : r.pref = pref
      · -- nothing of this preference stands after the place of the insertion
        have hnone : (x :: rules).filter (fun y => y.pref = pref) = [] := by
          apply List.filter_eq_nil_iff.mpr
          intro y hy
          have hle : x.pref ≤ y.pref := by
            rcases List.mem_cons.mp hy with rfl | hy
            · exact Nat.le_refl _
            · exact h.1 y hy
          simp only [decide_eq_true_eq]
          omega
        rw [List.filter_cons_of_pos (by simpa using hr), hnone, if_pos hr, List.nil_append]
      · rw [List.filter_cons_of_neg (by simpa using hr), if_neg hr]
    · by_cases hx : x.pref = pref
      · rw [List.filter_cons_of_pos (by simpa using hx), List.filter_cons_of_pos (by simpa using hx), ih h.2]
        split <;> rfl
      · rw [List.filter_cons_of_neg (by simpa using hx), List.filter_cons_of_neg (by simpa using hx), ih h.2]

omit [DecidableEq τ] in
/-- Deleting a rule takes away the first one at its preference. -/
theorem filter_eraseP {rules : List (Rule τ)} {p pref : Nat} :
    ((rules.eraseP fun x => x.pref = p).filter fun x => x.pref = pref) =
      if p = pref then (rules.filter fun x => x.pref = pref).tail else rules.filter fun x => x.pref = pref := by
  induction rules with
  | nil => simp
  | cons x rules ih =>
    rw [List.eraseP_cons]
    by_cases hx : x.pref = p
    · subst hx
      by_cases hp : x.pref = pref
      · simp [hp]
      · simp [hp]
    · simp only [hx, decide_false, cond_false]
      by_cases hpref : x.pref = pref
      · have hp : p ≠ pref := fun he => hx (hpref.trans he.symm)
        rw [List.filter_cons_of_pos (by simpa using hpref), List.filter_cons_of_pos (by simpa using hpref), ih,
          if_neg hp, if_neg hp]
      · rw [List.filter_cons_of_neg (by simpa using hpref), List.filter_cons_of_neg (by simpa using hpref), ih]

/-- **The rules of one preference are a queue.** -/
theorem rulesAt_exec (h : c.exec k = some k') (hs : k.Sorted) (pref : Nat) :
    k'.rulesAt pref = c.onRules pref (k.rulesAt pref) := by
  obtain ⟨-, rfl⟩ := exec_eq_some.mp h
  cases c with
  | addRule x => exact filter_orderedInsert hs
  | delRule p => exact filter_eraseP
  | _ => rfl

/-- Deleting fails when there is nothing left. -/
theorem delRule_eq_none {pref : Nat} : (Cmd.delRule pref).exec k = none ↔ k.rulesAt pref = [] := by
  simp [Cmd.exec, Cmd.allowed, Kernel.rulesAt]

/-! ### Devices of one name -/

/-- What a command does to the devices of one name. -/
def Cmd.onLinks (dev : δ) : Cmd τ δ → List (Link δ) → List (Link δ)
  | addTunnel d near far, links => if d = dev then links ++ [⟨dev, some (near, far), false, []⟩] else links
  | setUp d, links => if d = dev then links.map fun l => { l with up := true } else links
  | replaceAddr d a, links =>
    if d = dev then links.map fun l => { l with addrs := if a ∈ l.addrs then l.addrs else l.addrs ++ [a] }
    else links
  | delLink d, links => if d = dev then [] else links
  | _, links => links

omit [DecidableEq τ] in
theorem mem_linksAt {l : Link δ} {dev : δ} : l ∈ k.linksAt dev ↔ l ∈ k.links ∧ l.dev = dev := by
  simp [Kernel.linksAt]

omit [DecidableEq τ] in
/-- A change to a device's link leaves the links of the others. -/
theorem linksAt_mapLink {d dev : δ} {f : Link δ → Link δ} (hf : ∀ l, (f l).dev = l.dev) :
    (k.mapLink d f).linksAt dev = if d = dev then (k.linksAt dev).map f else k.linksAt dev := by
  unfold Kernel.linksAt Kernel.mapLink
  induction k.links with
  | nil => simp
  | cons l links ih =>
    have hdev : (if l.dev = d then f l else l).dev = l.dev := by
      split
      · exact hf l
      · rfl
    simp only [List.map_cons]
    by_cases hl : l.dev = dev
    · rw [List.filter_cons_of_pos (by simpa [hdev] using hl), List.filter_cons_of_pos (by simpa using hl), ih]
      by_cases hd : d = dev
      · simp [hd, hl]
      · simp [hd, show l.dev ≠ d from fun he => hd (he.symm.trans hl)]
    · rw [List.filter_cons_of_neg (by simpa [hdev] using hl), List.filter_cons_of_neg (by simpa using hl), ih]

/-- What a command does to the links of one device is read off these links alone. -/
theorem linksAt_exec (h : c.exec k = some k') (dev : δ) : k'.linksAt dev = c.onLinks dev (k.linksAt dev) := by
  obtain ⟨-, rfl⟩ := exec_eq_some.mp h
  cases c with
  | addTunnel d near far =>
    simp only [Cmd.effect, Cmd.onLinks, Kernel.linksAt, List.filter_append]
    by_cases hd : d = dev <;> simp [hd]
  | setUp d => exact linksAt_mapLink fun _ => rfl
  | replaceAddr d a => exact linksAt_mapLink fun _ => rfl
  | delLink d =>
    simp only [Cmd.effect, Cmd.onLinks, Kernel.linksAt, List.filter_filter]
    split
    · rename_i hd
      apply List.filter_eq_nil_iff.mpr
      intro l _
      simp [hd]
    · rename_i hd
      apply List.filter_congr
      intro l _
      simp only [Bool.and_eq_left_iff_imp, decide_eq_true_eq]
      rintro rfl he
      exact hd he.symm
  | _ => rfl

omit [DecidableEq τ] in
theorem hasLink_eq_true {dev : δ} : k.hasLink dev = true ↔ k.linksAt dev ≠ [] := by
  simp [Kernel.hasLink, Kernel.linksAt]

omit [DecidableEq τ] in
/-- A device is up when one of its links is. -/
theorem isUp_eq_true {dev : δ} : k.isUp dev = true ↔ ∃ l ∈ k.linksAt dev, l.up = true := by
  simp only [Kernel.isUp, List.any_eq_true, Bool.and_eq_true, decide_eq_true_eq, mem_linksAt, and_assoc]

/-- The device is there and not up. -/
def Kernel.Down (k : Kernel τ δ) (dev : δ) : Prop := k.hasLink dev = true ∧ k.isUp dev = false

omit [DecidableEq τ] in
/-- A device is down when it is there and none of its links is up. -/
theorem down_iff {dev : δ} : k.Down dev ↔ k.linksAt dev ≠ [] ∧ ∀ l ∈ k.linksAt dev, l.up = false := by
  unfold Kernel.Down
  rw [hasLink_eq_true, ← Bool.not_eq_true, isUp_eq_true]
  simp only [not_exists, not_and, Bool.not_eq_true]

/-- No command takes a device down: one that is down was so, or has just been added. -/
theorem down_exec {dev : δ} (h : c.exec k = some k') (hdown : k'.Down dev) :
    k.Down dev ∨ ∃ near far, c = .addTunnel dev near far := by
  rw [down_iff, linksAt_exec h] at hdown
  rw [down_iff]
  obtain ⟨hthere, hall⟩ := hdown
  cases c with
  | addTunnel d near far =>
    by_cases hd : d = dev
    · exact .inr ⟨near, far, by rw [hd]⟩
    · simp only [Cmd.onLinks, if_neg hd] at hthere hall
      exact .inl ⟨hthere, hall⟩
  | setUp d =>
    by_cases hd : d = dev
    · -- every device of the name is up now
      simp only [Cmd.onLinks, if_pos hd] at hthere hall
      obtain ⟨l, hl⟩ := List.exists_mem_of_ne_nil _ hthere
      obtain ⟨l', -, rfl⟩ := List.mem_map.mp hl
      exact absurd (hall _ hl) (by simp)
    · simp only [Cmd.onLinks, if_neg hd] at hthere hall
      exact .inl ⟨hthere, hall⟩
  | replaceAddr d a =>
    by_cases hd : d = dev
    · simp only [Cmd.onLinks, if_pos hd] at hthere hall
      refine .inl ⟨fun hnone => hthere (by rw [hnone]; rfl), fun l hl => ?_⟩
      have hstill := hall _ (List.mem_map_of_mem hl)
      exact hstill
    · simp only [Cmd.onLinks, if_neg hd] at hthere hall
      exact .inl ⟨hthere, hall⟩
  | delLink d =>
    by_cases hd : d = dev
    · simp only [Cmd.onLinks, if_pos hd] at hthere
      exact absurd rfl hthere
    · simp only [Cmd.onLinks, if_neg hd] at hthere hall
      exact .inl ⟨hthere, hall⟩
  | _ => exact .inl ⟨hthere, hall⟩

/-- A device stays down until it is set up or deleted. -/
theorem keeps_down {dev : δ} (h : c.exec k = some k') (hdown : k.Down dev) (hup : c ≠ .setUp dev)
    (hdel : c ≠ .delLink dev) : k'.Down dev := by
  rw [down_iff] at hdown
  rw [down_iff, linksAt_exec h]
  obtain ⟨hthere, hall⟩ := hdown
  cases c with
  | addTunnel d near far =>
    by_cases hd : d = dev
    · simp only [Cmd.onLinks, if_pos hd]
      refine ⟨by simp, fun l hl => ?_⟩
      rcases List.mem_append.mp hl with hl | hl
      · exact hall l hl
      · rw [List.mem_singleton.mp hl]
    · simpa only [Cmd.onLinks, if_neg hd] using ⟨hthere, hall⟩
  | setUp d =>
    have hd : d ≠ dev := fun he => hup (by rw [he])
    simpa only [Cmd.onLinks, if_neg hd] using ⟨hthere, hall⟩
  | replaceAddr d a =>
    by_cases hd : d = dev
    · simp only [Cmd.onLinks, if_pos hd]
      refine ⟨by simpa using hthere, fun l hl => ?_⟩
      obtain ⟨l', hl', rfl⟩ := List.mem_map.mp hl
      exact hall l' hl'
    · simpa only [Cmd.onLinks, if_neg hd] using ⟨hthere, hall⟩
  | delLink d =>
    have hd : d ≠ dev := fun he => hdel (by rw [he])
    simpa only [Cmd.onLinks, if_neg hd] using ⟨hthere, hall⟩
  | _ => exact ⟨hthere, hall⟩

end PolicyRouting
