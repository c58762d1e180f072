import Mathlib.Data.List.ProdSigma
import BeautyAwg.Store.Commits
import BeautyAwg.Store.EditCalls
import BeautyAwg.Resolver.Correctness.Pick
import BeautyAwg.Awg.Model

/-!
# `Resolver.Correctness.Determined`: whether the database decides the routes

A domain is unique for a node, not among nodes, and two that differ in the table can be one to the resolver. Which
of two servers then gets a query depends on the order of a query without ORDER BY and of a map: the routes are
decided by the database just when nodes that claim one domain have one server (`determined_iff`). It stays so over
a run in which no commit brings in a domain that another node claims with another server (`routes_determined`).

## Contents
- **States.** `Determined`, `NoClash`, `determined_iff`.
- **Commits.** `brings`, `Fits`, `BringsNoClash`; `NodeTurns`, `claims_of_commit`.
- **Runs.** `routes_determined`.
-/

namespace BeautyAwg
namespace Resolver

open Store Txn LongestKey

variable {t : Tables} {s : Server} {c c' : Db} {op : Op} {pend : List Write} {n : NodeRow} {d : String}

/-! ## States -/

/-- Every query has one upstream, in whatever order rows and domains come. -/
def Determined (t : Tables) : Prop :=
  ∀ default q out out', Upstream t default q out → Upstream t default q out' → out = out'

/-- Nodes that claim what is one domain to the resolver have one server. -/
def NoClash (t : Tables) : Prop :=
  ∀ n n' d d', Claims t n d → Claims t n' d' → normal d = normal d' → withPort n.dns = withPort n'.dns

/-- A query for a claimed domain can go to the node's server. -/
theorem upstream_claimed (wf : t.Constraints) (h : Claims t n d) {q : String} (hq : normal q = normal d)
    (default : String) : Upstream t default q (withPort n.dns) := by
  refine upstream_iff.mpr (.inl ⟨(d, n.dns), (mem_domainRows wf).mpr ⟨n, h, rfl⟩, ?_, fun r _ hunder => ?_, rfl⟩)
  · rw [hq]
    exact captures_self '.' (normal d).toList
  · rw [hq] at hunder
    exact weight_le_of_suffix hunder.suffix

/-- **When the database decides the routes.** -/
theorem determined_iff (wf : t.Constraints) : Determined t ↔ NoClash t := by
  constructor
  · intro hdet n n' d d' h h' hsame
    exact hdet "" d _ _ (upstream_claimed wf h rfl "") (upstream_claimed wf h' hsame "")
  · intro hnone default q out out' hout hout'
    rcases upstream_iff.mp hout with ⟨r, hr, hunder, hmax, rfl⟩ | ⟨hfree, rfl⟩ <;>
      rcases upstream_iff.mp hout' with ⟨r', hr', hunder', hmax', rfl⟩ | ⟨hfree', rfl⟩
    · obtain ⟨n, hn, hdns⟩ := (mem_domainRows wf).mp hr
      obtain ⟨n', hn', hdns'⟩ := (mem_domainRows wf).mp hr'
      have hlen := le_antisymm (hmax' r hr hunder) (hmax r' hr' hunder')
      rw [hdns, hdns']
      exact hnone n n' r.1 r'.1 hn hn' (eq_of_under hunder hunder' hlen)
    · exact absurd hunder (hfree' r hr)
    · exact absurd hunder' (hfree r' hr')
    · rfl

/-! ## Commits -/

/-- The zones of one node. -/
def domainsOf (t : Tables) (id : Uuid) : List String := (t.domains.filter fun d => d.nodeId = id).map DomainRow.domain

theorem mem_domainsOf {id : Uuid} : d ∈ domainsOf t id ↔ ⟨id, d⟩ ∈ t.domains := by
  unfold domainsOf
  rw [List.mem_map]
  constructor
  · rintro ⟨r, hr, rfl⟩
    obtain ⟨hmem, hid⟩ := List.mem_filter.mp hr
    rw [← of_decide_eq_true hid]
    exact hmem
  · intro h
    exact ⟨_, List.mem_filter.mpr ⟨h, decide_eq_true rfl⟩, rfl⟩

/-- The domains that a call has a node claim, with the node as the call leaves it. -/
def brings (db : Db) : Op → List (NodeRow × String)
  | .setNodeDomains id domains =>
    (db.nodes.filter fun n => n.id = id ∧ n.status = .active).product (normalDomains domains)
  | .approveNode id => (db.nodes.filter fun n => n.id = id).product (domainsOf db.toTables id)
  | .setNodeDNS id dns =>
    ((db.nodes.filter fun n => n.id = id ∧ n.status = .active).map fun n => { n with dns := dns }).product
      (domainsOf db.toTables id)
  | _ => []

/-- No other node claims the domain with another server. -/
def Fits (db : Db) (n : NodeRow) (d : String) : Prop :=
  n.dns ≠ "" → ∀ m ∈ db.nodes, m.id ≠ n.id → m.status = .active ∧ m.dns ≠ "" →
    ∀ d' ∈ domainsOf db.toTables m.id, normal d' = normal d → withPort m.dns = withPort n.dns

instance (db : Db) (n : NodeRow) (d : String) : Decidable (Fits db n d) :=
  inferInstanceAs (Decidable (_ → ∀ m ∈ db.nodes, _ → _ → ∀ d' ∈ domainsOf db.toTables m.id, _ → _))

/-- No transaction that is about to commit brings in a domain that another node claims with another server. -/
def BringsNoClash (s : Server) : Prop :=
  ∀ i t, s.sessions i = some t → t.rest = .ret () → ∀ b ∈ brings s.committed t.op, Fits s.committed b.1 b.2

/-- A call is about one node. -/
theorem brings_one {b b' : NodeRow × String} (hb : b ∈ brings c op) (hb' : b' ∈ brings c op) : b.1.id = b'.1.id := by
  have hid : ∀ id, ∀ n ∈ c.nodes.filter fun n => n.id = id ∧ n.status = .active, n.id = id :=
    fun id n hn => (of_decide_eq_true (List.mem_filter.mp hn).2).1
  cases op with
  | setNodeDomains id domains =>
    rw [hid id _ (List.mem_product.mp hb).1, hid id _ (List.mem_product.mp hb').1]
  | approveNode id =>
    have hnode : ∀ n ∈ c.nodes.filter fun n => n.id = id, n.id = id :=
      fun n hn => of_decide_eq_true (List.mem_filter.mp hn).2
    rw [hnode _ (List.mem_product.mp hb).1, hnode _ (List.mem_product.mp hb').1]
  | setNodeDNS id dns =>
    obtain ⟨n, hn, heq⟩ := List.mem_map.mp (List.mem_product.mp hb).1
    obtain ⟨n', hn', heq'⟩ := List.mem_map.mp (List.mem_product.mp hb').1
    rw [← heq, ← heq']
    exact (hid id n hn).trans (hid id n' hn').symm
  | _ => exact absurd hb List.not_mem_nil

/-- What a call writes into the table of domains. -/
def Enters (op : Op) (w : Write) : Prop :=
  op.Writes w ∧ ∀ r, w = .insertDomain r → ∃ domains, op = .setNodeDomains r.nodeId domains ∧
    r.domain ∈ normalDomains domains

theorem body_enters (op : Op) : AllWrites (Enters op) op.body := by
  cases op with
  | setNodeDomains id domains =>
    refine allWrites_each (fun d => ⟨.setNodeDomains_drop d, fun r he => absurd he (by simp)⟩)
      (allWrites_bind allWrites_checkText fun _ => allWrites_writes fun w hw => ?_)
    obtain ⟨d, hd, rfl⟩ := List.mem_map.mp hw
    refine ⟨.setNodeDomains d, fun r he => ⟨domains, ?_⟩⟩
    obtain rfl := Write.insertDomain.inj he
    exact ⟨rfl, hd⟩
  | _ =>
    refine (body_allWrites _).mono fun w hw => ⟨hw, fun r he => ?_⟩
    subst he
    cases hw

/-- What a commit makes of a node's row, as far as the routes are concerned. -/
structure NodeTurns (op : Op) (m n : NodeRow) : Prop where
  id : m.id = n.id
  status : n.status = .active → m.status = .active ∨ op = .approveNode n.id
  dns : n.dns = m.dns ∨ op = .setNodeDNS n.id n.dns

/-- Where a node's row comes from; a node that is inserted has no server. -/
def NodeComes (c : Db) (op : Op) (n : NodeRow) : Prop :=
  (∃ m ∈ c.nodes, NodeTurns op m n) ∨ n.dns = "" ∧ ∃ r, op.Writes (.insertNode r)

theorem nodeComes_update {id : Uuid} {f : NodeRow → NodeRow} (hw : op.Writes (.updateNode id f)) (hid : n.id = id)
    (h : NodeComes c op n) : NodeComes c op (f n) := by
  subst hid
  cases hw with
  | enrollNode_known known token =>
    refine h.imp (fun ⟨m, hm, hturns⟩ => ⟨m, hm, hturns.id, fun hactive => ?_, hturns.dns⟩) fun hnew => hnew
    exact hturns.status (active_of_announce hactive)
  | approveNode a =>
    rcases h with ⟨m, hm, hturns⟩ | ⟨-, r, hr⟩
    · exact .inl ⟨m, hm, hturns.id, fun _ => .inr rfl, hturns.dns⟩
    · cases hr
  | rejectNode =>
    rcases h with ⟨m, hm, hturns⟩ | ⟨-, r, hr⟩
    · exact .inl ⟨m, hm, hturns.id, fun hactive => absurd hactive (by simp [reject]), hturns.dns⟩
    · cases hr
  | setNodeDNS =>
    rcases h with ⟨m, hm, hturns⟩ | ⟨-, r, hr⟩
    · exact .inl ⟨m, hm, hturns.id, hturns.status, .inr rfl⟩
    · cases hr
  | renameNode | setNodeColor =>
    exact h.imp (fun ⟨m, hm, hturns⟩ => ⟨m, hm, hturns.id, hturns.status, hturns.dns⟩) fun hnew => hnew

theorem nodeComes_of_commit (hws : ∀ w ∈ pend, op.Writes w) (h : applyAll apply pend c = .ok c')
    (hn : n ∈ c'.nodes) : NodeComes c op n := by
  have hall := applyAll_induction (P := fun s : Db => ∀ n ∈ s.nodes, NodeComes c op n) (fun w hw s s' hs ih n hn => ?_)
    h fun n hn => .inl ⟨n, hn, rfl, .inl, .inl rfl⟩
  · exact hall n hn
  · rw [apply_eq_ok] at hs
    rw [← hs] at hn
    cases w with
    | insertNode r =>
      rcases List.mem_append.mp hn with hold | hnew
      · exact ih n hold
      · obtain rfl := List.mem_singleton.mp hnew
        have hwrites := hws _ hw
        refine .inr ⟨?_, n, hwrites⟩
        cases hwrites <;> rfl
    | updateNode id f =>
      obtain ⟨m, hm, rfl⟩ := List.mem_map.mp hn
      by_cases hid : m.id = id
      · rw [if_pos hid]
        exact nodeComes_update (hws _ hw) hid (ih m hm)
      · rw [if_neg hid]
        exact ih m hm
    | deleteNode id => exact ih n (List.mem_filter.mp hn).1
    | insertSubnet | deleteSubnet | insertDomain | deleteDomain | insertClient | updateClient | deleteClient
    | insertGrant | setExit | deleteGrant | insertRule | deleteRule | insertLink | deleteLink => exact ih n hn

/-- What a node claims after a commit it claimed before, or the commit brings it in. -/
theorem claims_of_commit (hws : ∀ w ∈ pend, Enters op w) (h : applyAll apply pend c = .ok c')
    (hclaims : Claims c'.toTables n d) :
    (∃ m, Claims c.toTables m d ∧ m.id = n.id ∧ m.dns = n.dns) ∨
      ∃ b ∈ brings c op, b.1.id = n.id ∧ b.1.dns = n.dns ∧ b.2 = d := by
  obtain ⟨hn, hactive, hdns, hrow⟩ := hclaims
  rcases nodeComes_of_commit (fun w hw => (hws w hw).1) h hn with ⟨m, hm, hid, hstatus, hserver⟩ | ⟨hnone, -⟩
  · have hentered : (⟨n.id, d⟩ : DomainRow) ∈ c.domains ∨ ∃ domains, op = .setNodeDomains n.id domains ∧
        d ∈ normalDomains domains :=
      (domain_of_commit h hrow).imp_right fun hw => (hws _ hw).2 _ rfl
    rcases hentered with hold | ⟨domains, rfl, hd⟩
    · rcases hserver with hserver | rfl
      · rcases hstatus hactive with hactive' | rfl
        · exact .inl ⟨m, ⟨hm, hactive', hserver ▸ hdns, hid ▸ hold⟩, hid, hserver.symm⟩
        · refine .inr ⟨(m, d), List.mem_product.mpr ⟨?_, mem_domainsOf.mpr hold⟩, hid, hserver.symm, rfl⟩
          exact List.mem_filter.mpr ⟨hm, decide_eq_true hid⟩
      · have hactive' : m.status = .active := (hstatus hactive).resolve_right (by simp)
        refine .inr ⟨({ m with dns := n.dns }, d), List.mem_product.mpr ⟨?_, mem_domainsOf.mpr hold⟩, hid, rfl, rfl⟩
        exact List.mem_map_of_mem (List.mem_filter.mpr ⟨hm, decide_eq_true ⟨hid, hactive'⟩⟩)
    · have hserver' : n.dns = m.dns := hserver.resolve_right (by simp)
      have hactive' : m.status = .active := (hstatus hactive).resolve_right (by simp)
      refine .inr ⟨(m, d), List.mem_product.mpr ⟨?_, hd⟩, hid, hserver'.symm, rfl⟩
      exact List.mem_filter.mpr ⟨hm, decide_eq_true ⟨hid, hactive'⟩⟩
  · exact absurd hnone hdns

/-- **Step.** A commit that brings in no clash leaves none. -/
theorem noClash_of_commit (hws : ∀ w ∈ pend, Enters op w) (h : applyAll apply pend c = .ok c')
    (hfits : ∀ b ∈ brings c op, Fits c b.1 b.2) (hc : NoClash c.toTables) : NoClash c'.toTables := by
  intro n n' d d' hn hn' hsame
  by_cases hid : n.id = n'.id
  · rw [node_eq_of_id c'.wf hn.mem hn'.mem hid]
  rcases claims_of_commit hws h hn with ⟨m, hm, hmid, hmdns⟩ | ⟨b, hb, hbid, hbdns, rfl⟩ <;>
    rcases claims_of_commit hws h hn' with ⟨m', hm', hmid', hmdns'⟩ | ⟨b', hb', hbid', hbdns', rfl⟩
  · rw [← hmdns, ← hmdns']
    exact hc m m' d d' hm hm' hsame
  · rw [← hmdns, ← hbdns']
    refine hfits b' hb' (hbdns' ▸ hn'.dns) m hm.mem ?_ ⟨hm.active, hm.dns⟩ d (mem_domainsOf.mpr hm.row) hsame
    rw [hmid, hbid']
    exact hid
  · rw [← hmdns', ← hbdns]
    refine (hfits b hb (hbdns ▸ hn.dns) m' hm'.mem ?_ ⟨hm'.active, hm'.dns⟩ d' (mem_domainsOf.mpr hm'.row)
      hsame.symm).symm
    rw [hmid', hbid]
    exact fun he => hid he.symm
  · -- one call is about one node
    exact absurd (hbid.symm.trans ((brings_one hb hb').trans hbid')) hid

/-! ## Runs -/

/-- **When the routes are decided by the database.** In a state, just when nodes that claim one domain have one
    server; and in every state that is reached by commits none of which brings in a domain that another node claims
    with another server. -/
theorem routes_determined (hub : Awg.Hub) (secret : String) :
    (∀ db : Db, Determined db.toTables ↔ NoClash db.toTables) ∧
      ∀ s, StepsIn apply Op.body BringsNoClash (Sys.idle (Db.boot hub secret)) s →
        Determined s.committed.toTables := by
  refine ⟨fun db => determined_iff db.wf, fun s h => (determined_iff s.committed.wf).mpr ?_⟩
  refine Protocol.good_of_commits (I := fun db : Db => NoClash db.toTables) body_enters ?_ ?_ h
  · intro s i t c' hs hc ht hret hws happly
    exact noClash_of_commit hws happly (hs i t ht hret) hc
  · exact fun n _ _ _ hn => absurd hn.mem List.not_mem_nil

/-- A call alone. -/
theorem bringsNoClash_of_solo {i : Nat} {t : Session Op Db Write Lock StoreErr} (hs : Solo s i t)
    (hfits : ∀ b ∈ brings s.committed t.op, Fits s.committed b.1 b.2) : BringsNoClash s := by
  intro j t' ht' _
  by_cases hj : j = i
  · rw [hj, hs.here] at ht'
    rw [← Option.some.inj ht']
    exact hfits
  · exact absurd (ht'.symm.trans (hs.alone j hj)) (by simp)

/-- Two nodes with DNS servers and a domain each. -/
def twoZones (domain : String) : List Op :=
  [.createNode 1 "office" "" [] ⟨"", "pub1"⟩ "", .createNode 2 "lab" "" [] ⟨"", "pub2"⟩ "",
    .setNodeDNS 1 "10.0.0.2", .setNodeDomains 1 ["mmop.gripe"], .setNodeDNS 2 "10.0.0.3", .setNodeDomains 2 [domain]]

/-- Zones one of which is below the other. -/
theorem routes_determined_nested : ∃ s, StepsIn apply Op.body BringsNoClash (Sys.idle (Db.boot Awg.demoHub "")) s ∧
    domainRows s.committed.toTables = [("mmop.gripe", "10.0.0.2"), ("gripe", "10.0.0.3")] ∧
      Determined s.committed.toTables := by
  let ok : Op → Db → Bool := fun op db => decide (∀ b ∈ brings db op, Fits db b.1 b.2)
  have hrun : (runAll apply Op.body ok (Db.boot Awg.demoHub "") (twoZones "gripe")).map
      (fun db => domainRows db.toTables) = some [("mmop.gripe", "10.0.0.2"), ("gripe", "10.0.0.3")] := by decide +kernel
  obtain ⟨db, hdb, hrows⟩ := Option.map_eq_some_iff.mp hrun
  have hsteps : StepsIn apply Op.body BringsNoClash (Sys.idle (Db.boot Awg.demoHub "")) (Sys.idle db) := by
    refine stepsIn_of_calls_where (W := Op.Writes) (fun c i t ht => ?_)
      (fun hop hs _ => bringsNoClash_of_solo hs (of_decide_eq_true hop)) body_allWrites (calls_of_runAll hdb)
    exact absurd ht (by simp [Sys.idle])
  exact ⟨_, hsteps, hrows, (routes_determined Awg.demoHub "").2 _ hsteps⟩

/-- One domain in two spellings, entered for two nodes. -/
theorem routes_undetermined : ∃ s, Steps apply Op.body (Sys.idle (Db.boot Awg.demoHub "")) s ∧
    Upstream s.committed.toTables "" "www.mmop.gripe." "10.0.0.2:53" ∧
      Upstream s.committed.toTables "" "www.mmop.gripe." "10.0.0.3:53" := by
  have hrun : (runAll apply Op.body (fun _ _ => true) (Db.boot Awg.demoHub "") (twoZones "*.MMOP.gripe")).map
      (fun db => domainRows db.toTables) = some [("mmop.gripe", "10.0.0.2"), ("mmop.gripe", "10.0.0.3")] := by
    decide +kernel
  obtain ⟨db, hdb, hrows⟩ := Option.map_eq_some_iff.mp hrun
  have hsteps : Steps apply Op.body (Sys.idle (Db.boot Awg.demoHub "")) (Sys.idle db) :=
    stepsIn_of_calls (fun _ => trivial) (fun _ => trivial) (calls_of_runAll hdb)
  have hout : ∀ e ∈ [("mmop.gripe", "10.0.0.2"), ("mmop.gripe", "10.0.0.3")],
      Upstream db.toTables "" "www.mmop.gripe." (withPort e.2) := by
    have hlongest : ∀ e ∈ [("mmop.gripe", "10.0.0.2"), ("mmop.gripe", "10.0.0.3")],
        Under (normal e.1) (normal "www.mmop.gripe.") ∧
          ∀ e' ∈ [("mmop.gripe", "10.0.0.2"), ("mmop.gripe", "10.0.0.3")],
            Under (normal e'.1) (normal "www.mmop.gripe.") → byteLen (normal e'.1) ≤ byteLen (normal e.1) := by
      decide +kernel
    intro e he
    rw [upstream_iff, hrows]
    exact .inl ⟨e, he, (hlongest e he).1, (hlongest e he).2, rfl⟩
  exact ⟨_, hsteps, hout ("mmop.gripe", "10.0.0.2") (by simp), hout ("mmop.gripe", "10.0.0.3") (by simp)⟩

end Resolver
end BeautyAwg
