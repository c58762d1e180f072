import BeautyAwg.Store.Ops

/-!
# `Store.Commits`: where rows come from

A commit replays a transaction's writes on whatever is committed by then. Each row of the result was there
before or is one that the transaction inserted, up to the columns that its updates change.
-/

namespace BeautyAwg
namespace Store

open Netip Awg Txn

/-- The database with the store calls that run on it. -/
abbrev Server := Sys Op Db Write Lock StoreErr

variable {op : Op} {ws : List Write} {c c' : Db}

/-- The columns of a node's row that no call changes. -/
def SameNode (n m : NodeRow) : Prop := n.id = m.id ∧ n.isHub = m.isHub ∧ n.keys = m.keys

/-- An edit by a call leaves a node's id, its keys and whether it is the hub's own. -/
theorem sameNode_of_update {id : Uuid} {f : NodeRow → NodeRow} (h : op.Writes (.updateNode id f)) (n : NodeRow) :
    SameNode n (f n) := by
  cases h <;> exact ⟨rfl, rfl, rfl⟩

/-- A node's row after a commit. -/
theorem node_of_commit (hws : ∀ w ∈ ws, op.Writes w) (h : applyAll apply ws c = .ok c') {n : NodeRow}
    (hn : n ∈ c'.nodes) :
    (∃ m ∈ c.nodes, SameNode m n) ∨ ∃ m, Write.insertNode m ∈ ws ∧ SameNode m n := by
  have hall := applyAll_induction (P := fun s : Db => ∀ n ∈ s.nodes,
    (∃ m ∈ c.nodes, SameNode m n) ∨ ∃ m, Write.insertNode m ∈ ws ∧ SameNode m n) (fun w hw s s' hs ih n hn => ?_)
    h fun n hn => .inl ⟨n, hn, rfl, rfl, rfl⟩
  · exact hall n hn
  · rw [apply_eq_ok] at hs
    rw [← hs] at hn
    cases w with
    | insertNode r =>
      rcases List.mem_append.mp hn with hold | hnew
      · exact ih n hold
      · rw [List.mem_singleton.mp hnew]
        exact .inr ⟨r, hw, rfl, rfl, rfl⟩
    | updateNode id f =>
      obtain ⟨m, hm, rfl⟩ := List.mem_map.mp hn
      have hsame : SameNode m (if m.id = id then f m else m) := by
        split
        · exact sameNode_of_update (hws _ hw) m
        · exact ⟨rfl, rfl, rfl⟩
      have htrans : ∀ x, SameNode x m → SameNode x (if m.id = id then f m else m) :=
        fun x hx => ⟨hx.1.trans hsame.1, hx.2.1.trans hsame.2.1, hx.2.2.trans hsame.2.2⟩
      exact (ih m hm).imp (fun ⟨x, hx, hxm⟩ => ⟨x, hx, htrans x hxm⟩) fun ⟨x, hx, hxm⟩ => ⟨x, hx, htrans x hxm⟩
    | deleteNode id => exact ih n (List.mem_filter.mp hn).1
    | insertSubnet | deleteSubnet | insertDomain | deleteDomain | insertClient | updateClient | deleteClient
    | insertGrant | setExit | deleteGrant | insertRule | deleteRule | insertLink | deleteLink => exact ih n hn

/-- The commit gives the node the subnet. -/
def Gains (pend : List Write) (id : Uuid) (p : Prefix) : Prop := Write.insertSubnet ⟨id, p⟩ ∈ pend

/-- A subnet after a commit was there or is one that the commit inserts. -/
theorem subnet_of_commit (h : applyAll apply ws c = .ok c') {s : SubnetRow} (hs : s ∈ c'.subnets) :
    s ∈ c.subnets ∨ Write.insertSubnet s ∈ ws := by
  have hall := applyAll_induction (P := fun d : Db => ∀ s ∈ d.subnets, s ∈ c.subnets ∨ Write.insertSubnet s ∈ ws)
    (fun w hw d d' hd ih s hs => ?_) h fun s hs => .inl hs
  · exact hall s hs
  · rw [apply_eq_ok] at hd
    rw [← hd] at hs
    cases w with
    | insertSubnet r =>
      rcases List.mem_append.mp hs with hold | hnew
      · exact ih s hold
      · rw [List.mem_singleton.mp hnew]
        exact .inr hw
    | deleteSubnet => exact ih s (List.mem_of_mem_erase hs)
    | deleteNode id => exact ih s (List.mem_filter.mp hs).1
    | insertNode | updateNode | insertDomain | deleteDomain | insertClient | updateClient | deleteClient
    | insertGrant | setExit | deleteGrant | insertRule | deleteRule | insertLink | deleteLink => exact ih s hs

/-- No commit changes the hub's row. -/
theorem hub_of_commit (h : applyAll apply ws c = .ok c') : c'.hub = c.hub := by
  refine applyAll_induction (P := fun d : Db => d.hub = c.hub) (fun w _ d d' hd ih => ?_) h rfl
  rw [apply_eq_ok] at hd
  rw [← hd, ← ih]
  cases w <;> rfl

/-- A link after a commit was there or is inserted by it. -/
theorem link_of_commit (h : applyAll apply ws c = .ok c') {l : LinkRow} (hl : l ∈ c'.links) :
    l ∈ c.links ∨ Write.insertLink l ∈ ws := by
  have hall := applyAll_induction (P := fun d : Db => ∀ l ∈ d.links, l ∈ c.links ∨ Write.insertLink l ∈ ws)
    (fun w hw d d' hd ih l hl => ?_) h fun l hl => .inl hl
  · exact hall l hl
  · rw [apply_eq_ok] at hd
    rw [← hd] at hl
    cases w with
    | insertLink r =>
      simp only [Write.eval] at hl
      split at hl
      · exact ih l hl
      · rcases List.mem_append.mp hl with hold | hnew
        · exact ih l hold
        · rw [List.mem_singleton.mp hnew]
          exact .inr hw
    | deleteLink => exact ih l (List.mem_of_mem_erase hl)
    | deleteNode id => exact ih l (List.mem_filter.mp hl).1
    | insertNode | updateNode | insertSubnet | deleteSubnet | insertDomain | deleteDomain | insertClient
    | updateClient | deleteClient | insertGrant | setExit | deleteGrant | insertRule | deleteRule => exact ih l hl

/-- A domain after a commit was there or is inserted by it. -/
theorem domain_of_commit (h : applyAll apply ws c = .ok c') {d : DomainRow} (hd : d ∈ c'.domains) :
    d ∈ c.domains ∨ Write.insertDomain d ∈ ws := by
  have hall := applyAll_induction (P := fun s : Db => ∀ d ∈ s.domains, d ∈ c.domains ∨ Write.insertDomain d ∈ ws)
    (fun w hw s s' hs ih d hd => ?_) h fun d hd => .inl hd
  · exact hall d hd
  · rw [apply_eq_ok] at hs
    rw [← hs] at hd
    cases w with
    | insertDomain r =>
      simp only [Write.eval] at hd
      split at hd
      · exact ih d hd
      · rcases List.mem_append.mp hd with hold | hnew
        · exact ih d hold
        · rw [List.mem_singleton.mp hnew]
          exact .inr hw
    | deleteDomain => exact ih d (List.mem_of_mem_erase hd)
    | deleteNode id => exact ih d (List.mem_filter.mp hd).1
    | insertNode | updateNode | insertSubnet | deleteSubnet | insertClient | updateClient | deleteClient
    | insertGrant | setExit | deleteGrant | insertRule | deleteRule | insertLink | deleteLink => exact ih d hd

/-- The columns of a client's row that no call changes. -/
def SameClient (r r' : ClientRow) : Prop := r.id = r'.id ∧ r.keys = r'.keys ∧ r.address = r'.address

theorem SameClient.refl (r : ClientRow) : SameClient r r := ⟨rfl, rfl, rfl⟩

theorem SameClient.symm {r r' : ClientRow} (h : SameClient r r') : SameClient r' r :=
  ⟨h.1.symm, h.2.1.symm, h.2.2.symm⟩

theorem SameClient.trans {r r' r'' : ClientRow} (h : SameClient r r') (h' : SameClient r' r'') : SameClient r r'' :=
  ⟨h.1.trans h'.1, h.2.1.trans h'.2.1, h.2.2.trans h'.2.2⟩

/-- An edit by a call leaves a device's identity, address and keys. -/
theorem sameClient_of_update {id : Uuid} {f : ClientRow → ClientRow} (h : op.Writes (.updateClient id f))
    (r : ClientRow) : SameClient r (f r) := by
  cases h <;> exact ⟨rfl, rfl, rfl⟩

/-- A client's row after a commit. -/
theorem client_of_commit (hws : ∀ w ∈ ws, op.Writes w) (h : applyAll apply ws c = .ok c') {r : ClientRow}
    (hr : r ∈ c'.clients) :
    (∃ r₀ ∈ c.clients, SameClient r₀ r) ∨ ∃ r₀, Write.insertClient r₀ ∈ ws ∧ SameClient r₀ r := by
  have hall := applyAll_induction (P := fun s : Db => ∀ r ∈ s.clients,
    (∃ r₀ ∈ c.clients, SameClient r₀ r) ∨ ∃ r₀, Write.insertClient r₀ ∈ ws ∧ SameClient r₀ r)
    (fun w hw s s' hs ih r hr => ?_) h fun r hr => .inl ⟨r, hr, .refl r⟩
  · exact hall r hr
  · rw [apply_eq_ok] at hs
    rw [← hs] at hr
    cases w with
    | insertClient x =>
      rcases List.mem_append.mp hr with hold | hnew
      · exact ih r hold
      · rw [List.mem_singleton.mp hnew]
        exact .inr ⟨x, hw, .refl x⟩
    | updateClient id f =>
      obtain ⟨x, hx, rfl⟩ := List.mem_map.mp hr
      have hsame : SameClient x (if x.id = id then f x else x) := by
        split
        · exact sameClient_of_update (hws _ hw) x
        · exact .refl x
      exact (ih x hx).imp (fun ⟨y, hy, hyx⟩ => ⟨y, hy, hyx.trans hsame⟩) fun ⟨y, hy, hyx⟩ => ⟨y, hy, hyx.trans hsame⟩
    | deleteClient id => exact ih r (List.mem_filter.mp hr).1
    | insertNode | updateNode | deleteNode | insertSubnet | deleteSubnet | insertDomain | deleteDomain
    | insertGrant | setExit | deleteGrant | insertRule | deleteRule | insertLink | deleteLink => exact ih r hr

end Store
end BeautyAwg
