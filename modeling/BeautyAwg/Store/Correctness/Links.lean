import BeautyAwg.NodeAgent.Poll
import BeautyAwg.Store.Correctness.Grants
import BeautyAwg.Store.Correctness.LeastPrivilege

/-!
# `Store.Correctness.Links`: the two readings of the links table

`loadNodeLinks` resolves the links over the live nodes, for the hub's ACL; `nodeReachSubnets` joins them with
the subnets whatever the nodes' status, for a node's own configuration. The two agree as long as both ends
of every link stay live, and the one call that can take an end away and leave the link is `RejectNode`.

## Contents
- **Agreement.** `YieldsLink`, `LinksAgree`.
- **The invariant.** `LinksLive`; `linksLive_of_effect`: every call keeps it that `keepsLinked` allows.
- **Reachable states.** `links_agree`, and `rejectNode_keeps_reach`.
-/

namespace BeautyAwg
namespace Store

open Netip Awg Txn NodeAgent

variable {hub : Hub} {db : Db} {t t' : Tables} {op : Op} {id src dst : Uuid} {nodes : List (Uuid × Node)}

/-! ## Agreement -/

/-- `loadNodeLinks` yields a link from the one node to the other. -/
def YieldsLink (t : Tables) (nodes : List (Uuid × Node)) (src dst : Uuid) : Prop :=
  ∃ l ∈ t.links, l.src = src ∧ l.dst = dst ∧ (joinLink nodes l).isSome = true

/-- What `nodeReachSubnets` returns for an active node are the subnets of the nodes it has a link with. -/
def LinksAgree (t : Tables) : Prop :=
  ∀ nodes, NodesRead t nodes → ∀ a ∈ t.nodes, a.status = .active → ∀ s,
    s ∈ reachSubnets t a.id ↔
      ∃ b, (YieldsLink t nodes a.id b ∨ YieldsLink t nodes b a.id) ∧ s ∈ t.subnetsOf b

theorem mem_reachSubnets {s : Prefix} : s ∈ reachSubnets t id ↔
    ∃ l ∈ t.links, (l.src = id ∨ l.dst = id) ∧ s ∈ t.subnetsOf (if l.src = id then l.dst else l.src) := by
  simp only [reachSubnets, List.mem_dedup, List.mem_flatMap, List.mem_filter, decide_eq_true_eq, and_assoc]

/-- A link that is yielded has live ends. -/
theorem YieldsLink.live (hnodes : NodesRead t nodes) (h : YieldsLink t nodes src dst) :
    t.nodeLive src = true ∧ t.nodeLive dst = true := by
  obtain ⟨l, -, rfl, rfl, hl⟩ := h
  rw [← hnodes.lookup_isSome, ← hnodes.lookup_isSome]
  unfold joinLink at hl
  split at hl
  · rename_i hs hd
    exact ⟨by rw [hs]; rfl, by rw [hd]; rfl⟩
  · exact absurd hl (by simp)

/-! ## The invariant -/

/-- Both ends of every link are active nodes with subnets, and none is the hub's. -/
def LinksLive (t : Tables) : Prop := ∀ l ∈ t.links, t.Linkable l.src ∧ t.Linkable l.dst

/-- A row between live nodes with subnets yields a link. -/
theorem yields_of_linkable (hnodes : NodesRead t nodes)
    (haddr : ∀ n ∈ t.nodes, n.status = .active → n.isHub = false → n.address ≠ none) {l : LinkRow}
    (hsrc : t.Linkable l.src) (hdst : t.Linkable l.dst) :
    (joinLink nodes l).isSome = true := by
  have hfound : ∀ i, t.Linkable i → ∃ n, nodes.lookup i = some n ∧ n.subnets ≠ [] := by
    rintro i ⟨r, hr, rfl, hactive, hhub, hne⟩
    have hlive : t.nodeLive r.id = true :=
      List.any_eq_true.mpr ⟨r, hr, by simp [hactive, haddr r hr hactive hhub]⟩
    obtain ⟨n, hn⟩ := Option.isSome_iff_exists.mp (hnodes.lookup_isSome.trans hlive)
    obtain ⟨-, -, -, hperm, -⟩ := hnodes.row (mem_of_lookup hn)
    exact ⟨n, hn, fun hnil => hne (List.nil_perm.mp (hnil ▸ hperm))⟩
  obtain ⟨a, ha, hane⟩ := hfound _ hsrc
  obtain ⟨b, hb, hbne⟩ := hfound _ hdst
  simp [joinLink, ha, hb, hane, hbne]

theorem linksAgree_of_live (wf : t.Constraints) (haddr : ActiveHasAddr t) (h : LinksLive t) : LinksAgree t := by
  intro nodes hnodes a _ _ s
  rw [mem_reachSubnets]
  constructor
  · rintro ⟨l, hl, hend, hs⟩
    have hyield : YieldsLink t nodes l.src l.dst := ⟨l, hl, rfl, rfl,
      yields_of_linkable hnodes (fun n hn hactive _ => haddr n hn hactive) (h l hl).1 (h l hl).2⟩
    split at hs
    · rename_i hsrc
      exact ⟨l.dst, Or.inl (hsrc ▸ hyield), hs⟩
    · rename_i hsrc
      exact ⟨l.src, Or.inr (hend.resolve_left hsrc ▸ hyield), hs⟩
  · rintro ⟨b, ⟨l, hl, hsrc, rfl, -⟩ | ⟨l, hl, rfl, hdst, -⟩, hs⟩
    · exact ⟨l, hl, Or.inl hsrc, by rwa [if_pos hsrc]⟩
    · have hne : l.src ≠ a.id := fun he => wf.links_check l hl (he.trans hdst.symm)
      exact ⟨l, hl, Or.inr hdst, by rwa [if_neg hne]⟩

/-- The call rejects no node that has a link. -/
def keepsLinked (op : Op) (db : Db) : Bool :=
  match op with
  | .rejectNode id => ¬ db.links.any fun l => l.src = id ∨ l.dst = id
  | _ => true

namespace Tables.Linkable

/-- A node stays fit for links when its row stays active and it keeps a subnet. -/
theorem mono (h : t.Linkable id)
    (hnode : ∀ n ∈ t.nodes, n.id = id → n.status = .active → n.isHub = false →
      ∃ n' ∈ t'.nodes, n'.id = id ∧ n'.status = .active ∧ n'.isHub = false)
    (hsub : t.subnetsOf id ≠ [] → t'.subnetsOf id ≠ []) : t'.Linkable id := by
  obtain ⟨n, hn, hid, hactive, hhub, hne⟩ := h
  obtain ⟨n', hn', hid', hactive', hhub'⟩ := hnode n hn hid hactive hhub
  exact ⟨n', hn', hid', hactive', hhub', hsub hne⟩

theorem append {n : NodeRow} {ss : List SubnetRow} (h : t.Linkable id) :
    ({ t with nodes := t.nodes ++ [n], subnets := t.subnets ++ ss } : Tables).Linkable id := by
  refine h.mono (fun m hm hid hactive hhub => ⟨m, List.mem_append_left _ hm, hid, hactive, hhub⟩) fun hne => ?_
  simp only [Tables.subnetsOf, List.filter_append, List.map_append]
  exact List.append_ne_nil_of_left_ne_nil hne _

/-- An edit of a node's row that keeps its identity and does not deactivate it. -/
theorem edit {node : Uuid} {f : NodeRow → NodeRow}
    (hf : ∀ n, (f n).id = n.id ∧ (f n).isHub = n.isHub ∧ (n.status = .active → (f n).status = .active))
    (h : t.Linkable id) : (t.editNode node f).Linkable id := by
  refine h.mono (fun m hm hid hactive hhub => ?_) fun hne => hne
  refine ⟨_, List.mem_map_of_mem hm, ?_⟩
  obtain ⟨hfid, hfhub, hfactive⟩ := hf m
  split
  · exact ⟨hfid.trans hid, hfactive hactive, hfhub.trans hhub⟩
  · exact ⟨hid, hactive, hhub⟩

/-- A change of the row of another node. -/
theorem other {node : Uuid} {f : NodeRow → NodeRow} (hne : id ≠ node) (h : t.Linkable id) :
    (t.editNode node f).Linkable id :=
  h.mono (fun m hm hid hactive hhub =>
    ⟨m, List.mem_map.mpr ⟨m, hm, if_neg (hid ▸ hne)⟩, hid, hactive, hhub⟩) fun hsub => hsub

theorem delete {node : Uuid} (hne : id ≠ node) (h : t.Linkable id) :
    (Write.eval t (.deleteNode node)).Linkable id := by
  refine h.mono (fun m hm hid hactive hhub =>
    ⟨m, List.mem_filter.mpr ⟨hm, by simpa [hid] using hne⟩, hid, hactive, hhub⟩) fun hsub => ?_
  rwa [subnetsOf_dropped rfl, if_neg hne]

/-- A node that announces itself again keeps what makes it linkable. -/
theorem reenroll {node : Uuid} {token hostname lanIface : String} {lans : List Prefix} (h : t.Linkable id) :
    ({ t.editNode node (announce token hostname lanIface) with
        subnets := t.replacedSubnets node lans } : Tables).Linkable id := by
  have hedit : (t.editNode node (announce token hostname lanIface)).Linkable id :=
    h.edit fun n => ⟨rfl, rfl, fun ha => by simp [announce, reannounced, ha]⟩
  refine hedit.mono (fun m hm hid hactive hhub => ⟨m, hm, hid, hactive, hhub⟩) fun hsub => ?_
  rw [subnetsOf_replaced (t := t) rfl]
  split
  · rename_i hnew
    exact hnew.2
  · exact hsub

end Tables.Linkable

/-- **Step.** A call that rejects no linked node keeps both ends of every link live. -/
theorem linksLive_of_effect (hok : keepsLinked op db = true) (h : Effect op db.toTables t')
    (hlive : LinksLive db.toTables) : LinksLive t' := by
  obtain ⟨t, ht⟩ : ∃ t, db.toTables = t := ⟨_, rfl⟩
  rw [ht] at h hlive
  have keep : ∀ (hl : ∀ l ∈ t'.links, l ∈ t.links)
      (hid : ∀ l ∈ t'.links, ∀ i, l.src = i ∨ l.dst = i → t.Linkable i → t'.Linkable i), LinksLive t' :=
    fun hl hid l hmem => ⟨hid l hmem _ (Or.inl rfl) (hlive l (hl l hmem)).1,
      hid l hmem _ (Or.inr rfl) (hlive l (hl l hmem)).2⟩
  cases h with
  | createNode | registered | hubCreated => exact keep (fun _ hl => hl) fun _ _ _ _ h => h.append
  | reenrolled => exact keep (fun _ hl => hl) fun _ _ _ _ h => h.reenroll
  | approved => exact keep (fun _ hl => hl) fun _ _ _ _ h => h.edit fun n => ⟨rfl, rfl, fun _ => rfl⟩
  | @rejected _ node =>
    refine keep (fun _ hl => hl) fun l hl i hi h => h.other ?_
    -- the rejected node is no end of a link
    rintro rfl
    have hfree : ¬ db.links.any fun l => l.src = i ∨ l.dst = i := of_decide_eq_true hok
    exact hfree (List.any_eq_true.mpr ⟨l, ht ▸ hl, decide_eq_true hi⟩)
  | @deletedNode _ node =>
    refine keep (fun _ hl => (List.mem_filter.mp hl).1) fun l hl i hi h => h.delete ?_
    -- the deleted node's links went with it
    obtain ⟨hsrc, hdst⟩ := of_decide_eq_true (List.mem_filter.mp hl).2
    rintro rfl
    exact hi.elim hsrc hdst
  | renamedNode | nodeDNS | nodeColor =>
    exact keep (fun _ hl => hl) fun _ _ _ _ h => h.edit fun n => ⟨rfl, rfl, fun h => h⟩
  | linked hne hsrc hdst hdisj =>
    intro l hl
    simp only [Write.eval] at hl
    split at hl
    · exact hlive l hl
    · rcases List.mem_append.mp hl with hl | hl
      · exact hlive l hl
      · rw [List.mem_singleton.mp hl]
        exact ⟨hsrc, hdst⟩
  | unlinked => exact keep (fun _ hl => List.mem_of_mem_erase hl) fun _ _ _ _ h => h
  | _ => exact hlive

/-! ## Reachable states -/

/-- **Links.** In every state reached from the first start by calls none of which rejects a node that has a
    link, what `nodeReachSubnets` returns for an active node are the subnets of exactly those nodes with
    which `loadNodeLinks` yields a link. -/
theorem links_agree {secret : String}
    (hcalls : Calls apply Op.body (fun op db => keepsLinked op db = true) (Db.boot hub secret) db) :
    LinksAgree db.toTables :=
  linksAgree_of_live db.wf (activeHasAddr_of_calls hcalls)
    (effect_induction (I := LinksLive) (fun _ _ _ hok h _ => linksLive_of_effect hok h) hcalls
      fun _ hl => absurd hl List.not_mem_nil)

/-! ### A rejected end -/

/-- Two linked nodes and a third, which is rejected. -/
def linkedRun (rejected : Uuid) : List Op :=
  [.createNode 1 "home" "eth0" [⟨.ofBytes 192 168 1 0, 24⟩] ⟨"priv1", "pub1"⟩ "",
    .createNode 2 "office" "eth0" [⟨.ofBytes 192 168 2 0, 24⟩] ⟨"priv2", "pub2"⟩ "",
    .createNode 3 "attic" "eth0" [⟨.ofBytes 192 168 3 0, 24⟩] ⟨"priv3", "pub3"⟩ "",
    .setNodeLink 1 2, .rejectNode rejected]

/-- **The defect.** After one end of a link is rejected the other end's reach still has its subnets, while
    `loadNodeLinks` yields the link no more. -/
theorem rejectNode_keeps_reach : ∃ db,
    runAll apply Op.body (fun _ _ => true) (Db.boot demoHub "") (linkedRun 2) = some db ∧
    ¬ LinksAgree db.toTables := by
  have hrun : ((runAll apply Op.body (fun _ _ => true) (Db.boot demoHub "") (linkedRun 2)).any fun db =>
      db.nodes.any (fun a => a.status = .active ∧ ⟨.ofBytes 192 168 2 0, 24⟩ ∈ reachSubnets db.toTables a.id) ∧
        db.links.all fun l => !(db.nodeLive l.src && db.nodeLive l.dst)) = true := by decide +kernel
  obtain ⟨db, hdb, hcheck⟩ := (Option.any_eq_true _ _).mp hrun
  obtain ⟨hreach, hdead⟩ := of_decide_eq_true hcheck
  obtain ⟨a, ha, hreach⟩ := List.any_eq_true.mp hreach
  obtain ⟨hactive, hs⟩ := of_decide_eq_true hreach
  refine ⟨db, hdb, fun hagree => ?_⟩
  obtain ⟨nodes, -, -, -, -, hnodes, -⟩ := snapshot_spec db.toTables
  obtain ⟨b, hyield, -⟩ := (hagree nodes hnodes a ha hactive _).mp hs
  have hnone : ∀ x y, ¬ YieldsLink db.toTables nodes x y := by
    intro x y hxy
    obtain ⟨hx, hy⟩ := hxy.live hnodes
    obtain ⟨l, hl, rfl, rfl, -⟩ := hxy
    have := List.all_eq_true.mp hdead l hl
    simp [hx, hy] at this
  exact hyield.elim (hnone _ _) (hnone _ _)

/-- Rejecting the node that has no link passes the check. -/
theorem links_agree_unlinked : ∃ db,
    runAll apply Op.body keepsLinked (Db.boot demoHub "") (linkedRun 3) = some db ∧
    LinksAgree db.toTables := by
  have hrun : (runAll apply Op.body keepsLinked (Db.boot demoHub "") (linkedRun 3)).isSome = true := by
    decide +kernel
  obtain ⟨db, hdb⟩ := Option.isSome_iff_exists.mp hrun
  exact ⟨db, hdb, links_agree (calls_of_runAll hdb)⟩

end Store
end BeautyAwg
