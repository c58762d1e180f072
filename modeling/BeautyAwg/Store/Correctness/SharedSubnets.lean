import BeautyAwg.Store.Commits
import BeautyAwg.Store.Effect

/-!
# `Store.Correctness.SharedSubnets`: who may have which subnet

The hub routes the subnets of the nodes that are live and not its own. No constraint keeps two of them, or one
of them and the pool, from being the same. Where no commit brings such a subnet in, none is there
(`unshared_of_steps`).
-/

namespace BeautyAwg
namespace Store

open Netip Awg Txn

/-! ## The invariant -/

/-- The hub routes the node's subnets: it is live, and not the hub's own. -/
def NodeRow.routed (n : NodeRow) : Prop := n.status = .active ∧ n.address ≠ none ∧ n.isHub = false

instance (n : NodeRow) : Decidable n.routed := inferInstanceAs (Decidable (_ ∧ _ ∧ _))

/-- A routed node has the subnet. -/
def Routes (t : Tables) (id : Uuid) (p : Prefix) : Prop := (∃ n ∈ t.nodes, n.id = id ∧ n.routed) ∧ p ∈ t.subnetsOf id

/-- No two routed nodes have one subnet, and none has the pool. -/
structure Unshared (t : Tables) : Prop where
  pool : ∀ id, ¬ Routes t id t.hub.poolCIDR
  apart : ∀ id id' p, Routes t id p → Routes t id' p → id = id'

/-! ## The condition -/

variable {s : Server} {c c' : Db} {op : Op} {pend : List Write}

/-- The commit makes the node routed. -/
def Wakes (op : Op) (pend : List Write) (id : Uuid) : Prop :=
  op = .approveNode id ∨ ∃ n, Write.insertNode n ∈ pend ∧ n.id = id ∧ n.routed

/-- The commit brings the node's subnet in: it gives it to a routed node, or makes the node routed. -/
def Brings (c : Db) (op : Op) (pend : List Write) (id : Uuid) (p : Prefix) : Prop :=
  Gains pend id p ∧ (∃ n ∈ c.nodes, n.id = id ∧ n.routed) ∨
    (p ∈ c.subnetsOf id ∨ Gains pend id p) ∧ Wakes op pend id

/-- No transaction that is about to commit brings in the pool, or a subnet that another node has there or is
    given with it. -/
def BringsUnshared (s : Server) : Prop :=
  ∀ i t, s.sessions i = some t → t.rest = .ret () → ∀ id p, Brings s.committed t.op t.pending id p →
    p ≠ s.committed.hub.poolCIDR ∧
      ∀ id', id' ≠ id → ¬ Routes s.committed.toTables id' p ∧ ¬ Brings s.committed t.op t.pending id' p

/-! ## Runs -/

/-- Where a routed node comes from. -/
theorem routed_of_commit (hws : ∀ w ∈ pend, op.Writes w) (h : applyAll apply pend c = .ok c') {n : NodeRow}
    (hn : n ∈ c'.nodes) (hr : n.routed) :
    (∃ m ∈ c.nodes, m.id = n.id ∧ m.routed) ∨ Wakes op pend n.id := by
  have hall := applyAll_induction (P := fun d : Db => ∀ n ∈ d.nodes, n.routed →
    (∃ m ∈ c.nodes, m.id = n.id ∧ m.routed) ∨ Wakes op pend n.id) (fun w hw d d' hd ih n hn hr => ?_)
    h fun n hn hr => .inl ⟨n, hn, rfl, hr⟩
  · exact hall n hn hr
  · rw [apply_eq_ok] at hd
    rw [← hd] at hn
    cases w with
    | insertNode r =>
      rcases List.mem_append.mp hn with hold | hnew
      · exact ih n hold hr
      · obtain rfl := List.mem_singleton.mp hnew
        exact .inr (.inr ⟨n, hw, rfl, hr⟩)
    | updateNode id f =>
      obtain ⟨m, hm, rfl⟩ := List.mem_map.mp hn
      by_cases hid : m.id = id
      · rw [if_pos hid] at hr ⊢
        have hwrites := hws _ hw
        cases hwrites with
        | enrollNode_known known token => exact ih m hm ⟨active_of_announce hr.1, hr.2⟩
        -- the one edit that makes a row routed
        | approveNode a => exact .inr (.inl (by rw [← hid]; rfl))
        | rejectNode => exact absurd hr.1 (by simp [reject])
        | renameNode | setNodeDNS | setNodeColor => exact ih m hm hr
      · rw [if_neg hid] at hr ⊢
        exact ih m hm hr
    | deleteNode id => exact ih n (List.mem_filter.mp hn).1 hr
    | insertSubnet | deleteSubnet | insertDomain | deleteDomain | insertClient | updateClient | deleteClient
    | insertGrant | setExit | deleteGrant | insertRule | deleteRule | insertLink | deleteLink => exact ih n hn hr

/-- A subnet that is routed after a commit was so before it, or the commit brings it in. -/
theorem routes_of_commit (hws : ∀ w ∈ pend, op.Writes w) (h : applyAll apply pend c = .ok c') {id : Uuid}
    {p : Prefix} (hroutes : Routes c'.toTables id p) : Routes c.toTables id p ∨ Brings c op pend id p := by
  obtain ⟨⟨n, hn, rfl, hr⟩, hp⟩ := hroutes
  have hsubnet : p ∈ c.subnetsOf n.id ∨ Gains pend n.id p :=
    (subnet_of_commit h (mem_subnetsOf.mp hp)).imp_left mem_subnetsOf.mpr
  rcases routed_of_commit hws h hn hr with hold | hwakes
  · rcases hsubnet with hp | hgains
    · exact .inl ⟨hold, hp⟩
    · exact .inr (.inl ⟨hgains, hold⟩)
  · exact .inr (.inr ⟨hsubnet, hwakes⟩)

/-- **Subnets stay unshared**, in every committed state of every interleaving in which no commit brings in a
    shared one. -/
theorem unshared_of_steps {P : Server → Prop} (hP : ∀ s, P s → BringsUnshared s) (hc : Unshared c.toTables)
    (h : StepsIn apply Op.body P (Sys.idle c) s) : Unshared s.committed.toTables := by
  refine Protocol.good_of_commits (I := fun d : Db => Unshared d.toTables) body_allWrites ?_ hc h
  intro s i t c' hs hun ht hret hws happly
  have hbrings := hP s hs i t ht hret
  have hfrom : ∀ id p, Routes c'.toTables id p →
      Routes s.committed.toTables id p ∨ Brings s.committed t.op t.pending id p :=
    fun id p => routes_of_commit hws happly
  constructor
  · intro id hroutes
    rw [hub_of_commit happly] at hroutes
    rcases hfrom id _ hroutes with hold | hnew
    · exact hun.pool id hold
    · exact (hbrings id _ hnew).1 rfl
  · intro id id' p hroutes hroutes'
    by_contra hne
    rcases hfrom id p hroutes with hold | hnew <;> rcases hfrom id' p hroutes' with hold' | hnew'
    · exact hne (hun.apart id id' p hold hold')
    · exact ((hbrings id' p hnew').2 id hne).1 hold
    · exact ((hbrings id p hnew).2 id' (Ne.symm hne)).1 hold'
    · exact ((hbrings id p hnew).2 id' (Ne.symm hne)).2 hnew'

end Store
end BeautyAwg
