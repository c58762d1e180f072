import Mathlib.Data.List.Find
import BeautyAwg.Awg.Correctness.NftMeaning
import BeautyAwg.Store.Effect
import BeautyAwg.Store.Snapshot
import BeautyAwg.Store.Correctness.Addresses

/-!
# `Store.Correctness.LeastPrivilege`: an accepted packet has a grant

A device reaches a LAN only through a grant of that LAN's node, as long as access rules stay out of other
nodes' LANs and site-to-site sources stay out of the pool (`Apart`). The store checks neither: a rule's
destination is compared with nothing, and a link's source LAN only with its destination's
(`setGrantRules_opens_other`). `keepsApart` is the check each call would need; where every call passes
it, `least_privilege` holds of every state reached.

## Contents
- **Apart.** `RuleApart`, `LanApart`, `Apart`, `keepsApart`.
- **Writes.** What one write does to `Apart`, and then each call.
- **Reachable states.** `ActiveHasAddr`, `least_privilege`.
-/

namespace BeautyAwg
namespace Store

open Netip Nft Awg Txn

/-! ## Apart -/

/-- The id is the hub node's. -/
def Tables.isHubId (t : Tables) (id : Uuid) : Bool := t.nodes.any fun n => n.id = id ∧ n.isHub

/-- An access rule on `node` with this destination stays out of the other nodes' LANs. -/
def RuleApart (t : Tables) (node : Uuid) (dest : Prefix) : Prop :=
  ∀ s ∈ t.subnets, s.nodeId ≠ node → t.isHubId node = false → t.isHubId s.nodeId = false →
    dest.overlaps s.subnet = false

/-- A LAN of `node` stays out of the access rules on other nodes, and out of the pool if `node` is the
    source of a link. -/
def LanApart (t : Tables) (node : Uuid) (lan : Prefix) : Prop :=
  (∀ r ∈ t.grantRules, node ≠ r.nodeId → t.isHubId r.nodeId = false → r.dest.overlaps lan = false) ∧
    ∀ l ∈ t.links, l.src = node → t.hub.poolCIDR.overlaps lan = false

instance (t : Tables) (node : Uuid) (dest : Prefix) : Decidable (RuleApart t node dest) :=
  inferInstanceAs (Decidable (∀ _ ∈ _, _ → _ → _ → _))

instance (t : Tables) (node : Uuid) (lan : Prefix) : Decidable (LanApart t node lan) :=
  inferInstanceAs (Decidable ((∀ _ ∈ _, _ → _ → _) ∧ ∀ _ ∈ _, _ → _))

/-- All access rules and all link sources are apart from what they must not reach. -/
structure Apart (t : Tables) : Prop where
  rules : ∀ r ∈ t.grantRules, RuleApart t r.nodeId r.dest
  links : ∀ l ∈ t.links, ∀ s ∈ t.subnets, s.nodeId = l.src → t.hub.poolCIDR.overlaps s.subnet = false

/-- The node an announcement with this key is taken to come from. -/
def announcer (db : Db) (id : Uuid) (pubkey : String) (pick : Nat) : Uuid :=
  ((anyRow pick (db.nodes.filter fun n => n.keys.pub = pubkey)).map NodeRow.id).getD id

/-- The call puts no LAN under another node's access rule or a link source's LAN into the pool. -/
def keepsApart (op : Op) (db : Db) : Bool :=
  match op with
  | .createNode id _ _ subnets _ _ => ∀ s ∈ subnets, LanApart db.toTables id s
  | .enrollNode id _ _ _ _ pubkey subnets pick =>
    ∀ s ∈ subnets, LanApart db.toTables (announcer db id pubkey pick) s
  | .setGrantRules _ nodeId rules => ∀ r ∈ rules, ∀ dest ∈ parsePrefix r.dest, RuleApart db.toTables nodeId dest
  | .setNodeLink srcId _ => ∀ s ∈ db.subnetsOf srcId, db.hub.poolCIDR.overlaps s = false
  | _ => true

/-! ## Writes -/

variable {hub : Hub} {db db' : Db} {op : Op}

/-- A write that adds no access rule, subnet or link and changes no node's identity. -/
def Plain : Write → Prop
  | .updateNode _ f => ∀ n, (f n).id = n.id ∧ (f n).isHub = n.isHub
  | .insertSubnet _ => False
  | .insertRule _ => False
  | .insertLink _ => False
  | _ => True

/-- A node that is the hub's stays so until it is deleted. -/
theorem isHubId_of_write {w : Write} {id : Uuid} (hw : ∀ i f, w = .updateNode i f → Plain w)
    (hdel : w ≠ .deleteNode id) (h : apply w db = .ok db') (hhub : db.isHubId id = true) :
    db'.isHubId id = true := by
  rw [apply_eq_ok] at h
  rw [← h]
  simp only [Tables.isHubId, List.any_eq_true, decide_eq_true_eq] at hhub ⊢
  obtain ⟨n, hn, rfl, hh⟩ := hhub
  cases w with
  | insertNode r => exact ⟨n, List.mem_append_left _ hn, rfl, hh⟩
  | updateNode i f =>
    obtain ⟨hid', hh'⟩ := hw i f rfl n
    refine ⟨_, List.mem_map_of_mem hn, ?_⟩
    split
    · exact ⟨hid', hh'.trans hh⟩
    · exact ⟨rfl, hh⟩
  | deleteNode i =>
    have hne : n.id ≠ i := fun he => hdel (he ▸ rfl)
    exact ⟨n, List.mem_filter.mpr ⟨hn, by simpa using hne⟩, rfl, hh⟩
  | insertSubnet | deleteSubnet | insertDomain | deleteDomain | insertClient | updateClient | deleteClient
  | insertGrant | setExit | deleteGrant | insertRule | deleteRule | insertLink | deleteLink =>
    exact ⟨n, hn, rfl, hh⟩

/-- A node that is there after a write was not deleted by it. -/
theorem not_deleted {w : Write} {id : Uuid} (h : apply w db = .ok db')
    (hid : id ∈ db'.nodes.map NodeRow.id) : w ≠ .deleteNode id := by
  rintro rfl
  rw [apply_eq_ok] at h
  rw [← h] at hid
  obtain ⟨m, hm, hmid⟩ := List.mem_map.mp hid
  exact absurd hmid (by simpa using (List.mem_filter.mp hm).2)

theorem hub_of_write {w : Write} (h : apply w db = .ok db') : db'.hub = db.hub := by
  rw [apply_eq_ok] at h
  rw [← h]
  cases w <;> rfl

/-- The rows of the three tables after a plain write were there before it. -/
theorem plain_rows {w : Write} (hw : Plain w) (h : apply w db = .ok db') :
    (∀ r ∈ db'.grantRules, r ∈ db.grantRules) ∧ (∀ s ∈ db'.subnets, s ∈ db.subnets) ∧
      ∀ l ∈ db'.links, l ∈ db.links := by
  rw [apply_eq_ok] at h
  rw [← h]
  cases w with
  | insertSubnet | insertRule | insertLink => exact absurd hw id
  | deleteNode id =>
    exact ⟨fun _ h => (List.mem_filter.mp h).1, fun _ h => (List.mem_filter.mp h).1,
      fun _ h => (List.mem_filter.mp h).1⟩
  | deleteClient id | deleteGrant key =>
    exact ⟨fun _ h => (List.mem_filter.mp h).1, fun _ h => h, fun _ h => h⟩
  | deleteSubnet s => exact ⟨fun _ h => h, fun _ h => List.mem_of_mem_erase h, fun _ h => h⟩
  | deleteRule r => exact ⟨fun _ h => List.mem_of_mem_erase h, fun _ h => h, fun _ h => h⟩
  | deleteLink l => exact ⟨fun _ h => h, fun _ h => h, fun _ h => List.mem_of_mem_erase h⟩
  | insertNode | updateNode | insertDomain | deleteDomain | insertClient | updateClient | insertGrant
  | setExit => exact ⟨fun _ h => h, fun _ h => h, fun _ h => h⟩

/-- What is apart stays apart while its rows stay: no node stops being the hub's. -/
theorem apart_of_rows {t t' : Tables} (hhub : t'.hub = t.hub)
    (hid : ∀ id ∈ t'.nodes.map NodeRow.id, t.isHubId id = true → t'.isHubId id = true)
    (hsub : ∀ s ∈ t'.subnets, s.nodeId ∈ t'.nodes.map NodeRow.id)
    (hrule : ∀ r ∈ t'.grantRules, r.nodeId ∈ t'.nodes.map NodeRow.id)
    (hrows : ∀ r ∈ t'.grantRules, ∀ s ∈ t'.subnets, r ∈ t.grantRules ∧ s ∈ t.subnets ∨
      (s.nodeId ≠ r.nodeId → t.isHubId r.nodeId = false → t.isHubId s.nodeId = false →
        r.dest.overlaps s.subnet = false))
    (hlinks : ∀ l ∈ t'.links, ∀ s ∈ t'.subnets, l ∈ t.links ∧ s ∈ t.subnets ∨
      (s.nodeId = l.src → t.hub.poolCIDR.overlaps s.subnet = false))
    (h : Apart t) : Apart t' := by
  have hfalse : ∀ id ∈ t'.nodes.map NodeRow.id, t'.isHubId id = false → t.isHubId id = false := by
    intro id hmem hf
    by_contra hc
    rw [hid id hmem (by simpa using hc)] at hf
    exact absurd hf (by simp)
  refine ⟨fun r hr s hs hne hrh hsh => ?_, fun l hl s hs he => ?_⟩
  · have hrh' := hfalse _ (hrule r hr) hrh
    have hsh' := hfalse _ (hsub s hs) hsh
    rcases hrows r hr s hs with ⟨hr', hs'⟩ | hnew
    · exact h.rules r hr' s hs' hne hrh' hsh'
    · exact hnew hne hrh' hsh'
  · rw [hhub]
    rcases hlinks l hl s hs with ⟨hl', hs'⟩ | hnew
    · exact h.links l hl' s hs' he
    · exact hnew he

/-- A rule's node exists: the rule's grant refers to it. -/
theorem rule_node (db : Db) {r : RuleRow} (hr : r ∈ db.grantRules) : r.nodeId ∈ db.nodes.map NodeRow.id := by
  obtain ⟨g, hg, hkey⟩ := List.mem_map.mp (db.wf.rules_grant_fkey r hr)
  have : g.nodeId = r.nodeId := congrArg Prod.snd hkey
  exact this ▸ db.wf.grants_node_fkey g hg

/-- A write that brings in neither subnets, rules nor links keeps everything apart. -/
theorem plain_apart {w : Write} (hw : Plain w) (h : apply w db = .ok db') (ha : Apart db.toTables) :
    Apart db'.toTables := by
  obtain ⟨hr, hs, hl⟩ := plain_rows hw h
  exact apart_of_rows (hub_of_write h)
    (fun _ hid => isHubId_of_write (fun _ _ _ => hw) (not_deleted h hid) h)
    db'.wf.subnets_node_fkey (fun _ => rule_node db') (fun r hrm s hsm => Or.inl ⟨hr r hrm, hs s hsm⟩)
    (fun l hlm s hsm => Or.inl ⟨hl l hlm, hs s hsm⟩) ha

/-- A subnet that meets no other node's rule, and not the pool where it is linked, keeps everything apart. -/
theorem insertSubnet_apart {s : SubnetRow} (h : apply (.insertSubnet s) db = .ok db')
    (hrules : ∀ r ∈ db.grantRules, s.nodeId ≠ r.nodeId → db.isHubId r.nodeId = false →
      db.isHubId s.nodeId = false → r.dest.overlaps s.subnet = false)
    (hlinks : ∀ l ∈ db.links, s.nodeId = l.src → db.hub.poolCIDR.overlaps s.subnet = false)
    (ha : Apart db.toTables) : Apart db'.toTables := by
  rw [apply_eq_ok] at h
  have hnew : ∀ x ∈ db'.subnets, x ∈ db.subnets ∨ x = s := by
    rw [← h]
    intro x hx
    exact (List.mem_append.mp hx).imp id List.mem_singleton.mp
  have hr : db'.grantRules = db.grantRules := by rw [← h]; rfl
  have hl : db'.links = db.links := by rw [← h]; rfl
  refine apart_of_rows (by rw [← h]; rfl) (fun _ _ hid => by rw [← h]; exact hid)
    db'.wf.subnets_node_fkey (fun _ => rule_node db') (fun r hrm x hx => ?_) (fun l hlm x hx => ?_) ha
  · rw [hr] at hrm
    rcases hnew x hx with hold | rfl
    · exact Or.inl ⟨hrm, hold⟩
    · exact Or.inr (hrules r hrm)
  · rw [hl] at hlm
    rcases hnew x hx with hold | rfl
    · exact Or.inl ⟨hlm, hold⟩
    · exact Or.inr (hlinks l hlm)

/-- A rule that meets no other node's subnet keeps everything apart. -/
theorem insertRule_apart {r : RuleRow} (h : apply (.insertRule r) db = .ok db')
    (hrule : RuleApart db.toTables r.nodeId r.dest) (ha : Apart db.toTables) : Apart db'.toTables := by
  rw [apply_eq_ok] at h
  have hnew : ∀ x ∈ db'.grantRules, x ∈ db.grantRules ∨ x = r := by
    rw [← h]
    intro x hx
    exact (List.mem_append.mp hx).imp id List.mem_singleton.mp
  have hs : db'.subnets = db.subnets := by rw [← h]; rfl
  have hl : db'.links = db.links := by rw [← h]; rfl
  refine apart_of_rows (by rw [← h]; rfl) (fun _ _ hid => by rw [← h]; exact hid)
    db'.wf.subnets_node_fkey (fun _ => rule_node db') (fun x hx s hsm => ?_)
    (fun l hlm s hsm => Or.inl ⟨hl ▸ hlm, hs ▸ hsm⟩) ha
  rw [hs] at hsm
  rcases hnew x hx with hold | rfl
  · exact Or.inl ⟨hold, hsm⟩
  · exact Or.inr (hrule s hsm)

/-- A link whose subnets do not meet the pool keeps everything apart. -/
theorem insertLink_apart {l : LinkRow} (h : apply (.insertLink l) db = .ok db')
    (hlink : ∀ s ∈ db.subnets, s.nodeId = l.src → db.hub.poolCIDR.overlaps s.subnet = false)
    (ha : Apart db.toTables) : Apart db'.toTables := by
  rw [apply_eq_ok] at h
  have hnew : ∀ x ∈ db'.links, x ∈ db.links ∨ x = l := by
    rw [← h]
    intro x hx
    simp only [Write.eval] at hx
    split at hx
    · exact Or.inl hx
    · exact (List.mem_append.mp hx).imp id List.mem_singleton.mp
  have hs : db'.subnets = db.subnets := by rw [← h]; rfl
  have hr : db'.grantRules = db.grantRules := by rw [← h]; rfl
  refine apart_of_rows (by rw [← h]; rfl) (fun _ _ hid => by rw [← h]; exact hid)
    db'.wf.subnets_node_fkey (fun _ => rule_node db')
    (fun x hx s hsm => Or.inl ⟨hr ▸ hx, hs ▸ hsm⟩) (fun x hx s hsm => ?_) ha
  rw [hs] at hsm
  rcases hnew x hx with hold | rfl
  · exact Or.inl ⟨hold, hsm⟩
  · exact Or.inr (hlink s hsm)

/-! ### The calls -/

/-- What a call that only adds LANs of one node leaves alone. -/
structure AddsLans (db db' : Db) : Prop where
  hub_eq : db'.hub = db.hub
  hubs : ∀ id, db.isHubId id = true → db'.isHubId id = true
  rules : ∀ r ∈ db'.grantRules, r ∈ db.grantRules
  links : ∀ l ∈ db'.links, l ∈ db.links

/-- A body that adds LANs of one node, all of them apart. -/
theorem apart_addsLans {α : Type} {t : Tx α} {a : α} {node : Uuid} {subnets : List Prefix}
    (ht : AllWrites (fun w => (Plain w ∧ ∀ id, w ≠ .deleteNode id) ∨
      ∃ s ∈ subnets, w = .insertSubnet ⟨node, s⟩) t)
    (hlan : ∀ s ∈ subnets, LanApart db.toTables node s) (h : run apply t db = .ok (a, db'))
    (ha : Apart db.toTables) : Apart db'.toTables := by
  -- write by write; the rules and links are those of the start, so the condition still speaks of them
  refine (run_induction (P := fun c => Apart c.toTables ∧ AddsLans db c) ?_ ht h
    ⟨ha, rfl, fun _ hid => hid, fun _ hr => hr, fun _ hl => hl⟩).1
  rintro w c c' (⟨hw, hnodel⟩ | ⟨s, hs, rfl⟩) hc ⟨hac, hf⟩
  · obtain ⟨hr, -, hl⟩ := plain_rows hw hc
    exact ⟨plain_apart hw hc hac, (hub_of_write hc).trans hf.hub_eq,
      fun id hid => isHubId_of_write (fun _ _ _ => hw) (hnodel id) hc (hf.hubs id hid),
      fun r hrm => hf.rules r (hr r hrm), fun l hlm => hf.links l (hl l hlm)⟩
  · have hapart : Apart c'.toTables := by
      refine insertSubnet_apart hc (fun r hr hne hhub _ => ?_) (fun l hl he => ?_) hac
      · refine (hlan s hs).1 r (hf.rules r hr) hne ?_
        by_contra hcon
        rw [hf.hubs _ (by simpa using hcon)] at hhub
        exact absurd hhub (by simp)
      · rw [hf.hub_eq]
        exact (hlan s hs).2 l (hf.links l hl) he.symm
    rw [apply_eq_ok] at hc
    refine ⟨hapart, ?_, fun id hid => ?_, fun r hr => hf.rules r ?_, fun l hl => hf.links l ?_⟩
    · rw [← hc]
      exact hf.hub_eq
    · rw [← hc]
      exact hf.hubs id hid
    · rw [← hc] at hr
      exact hr
    · rw [← hc] at hl
      exact hl

theorem apart_enrollNode {id : Uuid} {newToken name hostname lanIface pubkey : String}
    {subnets : List Prefix} {pick : Nat} {a : String × NodeStatus}
    (hlan : ∀ s ∈ subnets, LanApart db.toTables (announcer db id pubkey pick) s)
    (h : run apply (enrollNode id newToken name hostname lanIface pubkey subnets pick) db = .ok (a, db'))
    (ha : Apart db.toTables) : Apart db'.toTables := by
  rcases run_enrollNode_ok h with ⟨r, hr, h⟩ | ⟨hr, h⟩
  · have hwho : announcer db id pubkey pick = r.id := by rw [announcer, hr]; rfl
    rw [hwho] at hlan
    refine apart_addsLans (allWrites_reenrollNode (Or.inl ⟨fun _ => ⟨rfl, rfl⟩, ?_⟩)
      (fun _ => Or.inl ⟨trivial, ?_⟩) fun s hs => Or.inr ⟨s, hs, rfl⟩) hlan h ha
    all_goals exact fun _ he => by cases he
  · have hwho : announcer db id pubkey pick = id := by rw [announcer, hr]; rfl
    rw [hwho] at hlan
    refine apart_addsLans (allWrites_registerNode (Or.inl ⟨trivial, ?_⟩)
      fun s hs => Or.inr ⟨s, hs, rfl⟩) hlan h ha
    exact fun _ he => by cases he

theorem apart_createNode {id : Uuid} {name lanIface : String} {subnets : List Prefix} {keys : Keypair}
    {psk : String} {a : Addr} (hlan : ∀ s ∈ subnets, LanApart db.toTables id s)
    (h : run apply (createNode id name lanIface subnets keys psk) db = .ok (a, db'))
    (ha : Apart db.toTables) : Apart db'.toTables := by
  refine apart_addsLans (allWrites_bind allWrites_allocateIP fun _ => ?_) hlan h ha
  refine allWrites_bind allWrites_checkText fun _ =>
    allWrites_bind (allWrites_write (Or.inl ⟨trivial, fun _ he => by cases he⟩)) fun _ => ?_
  exact allWrites_bind (allWrites_insertSubnets fun s hs => Or.inr ⟨s, hs, rfl⟩) fun _ => trivial

/-- The hub node's subnet is everything, and exempt: no link starts at the new row. -/
theorem apart_ensureHubNode {id : Uuid} (h : run apply (ensureHubNode id) db = .ok ((), db'))
    (ha : Apart db.toTables) : Apart db'.toTables := by
  simp only [ensureHubNode, run_bind, run_read] at h
  split at h
  · simp only [pure_def, run_ret, Except.ok.injEq, Prod.mk.injEq, true_and] at h
    exact h ▸ ha
  · simp only [run_bind, run_read, run_write] at h
    cases hw : apply (.insertNode (hubNode id db.hub.address)) db with
    | error e => rw [hw] at h; exact absurd h (by simp [Except.map])
    | ok c =>
      rw [hw] at h
      simp only [Except.map] at h
      have hc := hw
      rw [apply_eq_ok] at hc
      have hhub : c.isHubId id = true := by
        rw [← hc]
        exact List.any_eq_true.mpr ⟨hubNode id db.hub.address, by simp [Write.eval], by simp [hubNode]⟩
      -- the new row has no links, and the rules exempt the hub's own node
      have hfresh : ∀ l ∈ c.links, l.src ≠ id := by
        intro l hl he
        have hnodup := c.wf.nodes_pkey
        rw [← hc] at hl hnodup
        simp only [Write.eval, List.map_append, List.map_cons, List.map_nil] at hnodup
        exact (List.nodup_append.mp hnodup).2.2 l.src (db.wf.links_src_fkey l hl) (hubNode id db.hub.address).id
          (List.mem_singleton.mpr rfl) he
      refine (run_induction (P := fun c => Apart c.toTables ∧ c.isHubId id = true ∧ ∀ l ∈ c.links, l.src ≠ id)
        (W := fun w => w = .insertSubnet ⟨id, ⟨.v4 0, 0⟩⟩) ?_
        (allWrites_insertSubnets fun s hs => by rw [List.mem_singleton.mp hs]) h
        ⟨plain_apart (w := .insertNode _) trivial hw ha, hhub, hfresh⟩).1
      rintro w d d' rfl hd ⟨hda, hdh, hdl⟩
      refine ⟨insertSubnet_apart hd (fun _ _ _ _ hf => absurd (hf.symm.trans hdh) (by simp))
        (fun l hl he => absurd he.symm (hdl l hl)) hda, ?_⟩
      rw [apply_eq_ok] at hd
      rw [← hd]
      exact ⟨hdh, hdl⟩

theorem apart_setGrantRules {client node : Uuid} {rules : List RuleDTO}
    (hrules : ∀ r ∈ rules, ∀ dest ∈ parsePrefix r.dest, RuleApart db.toTables node dest)
    (h : run apply (setGrantRules client node rules) db = .ok ((), db'))
    (ha : Apart db.toTables) : Apart db'.toTables := by
  refine (run_induction (P := fun c => Apart c.toTables ∧ c.subnets = db.subnets ∧ c.nodes = db.nodes) ?_
    (body_allWrites (.setGrantRules client node rules)) h ⟨ha, rfl, rfl⟩).1
  rintro w c c' hw hc ⟨hac, hs, hn⟩
  cases hw with
  | setGrantRules_drop r =>
    refine ⟨plain_apart (w := .deleteRule r) trivial hc hac, ?_⟩
    rw [apply_eq_ok] at hc
    rw [← hc]
    exact ⟨hs, hn⟩
  | setGrantRules hr hdest =>
    refine ⟨insertRule_apart hc ?_ hac, ?_⟩
    · have hrule := hrules _ hr _ hdest
      unfold RuleApart Tables.isHubId at hrule ⊢
      rwa [hs, hn]
    · rw [apply_eq_ok] at hc
      rw [← hc]
      exact ⟨hs, hn⟩

theorem apart_setNodeLink {src dst : Uuid}
    (hlink : ∀ s ∈ db.subnetsOf src, db.hub.poolCIDR.overlaps s = false)
    (h : run apply (setNodeLink src dst) db = .ok ((), db'))
    (ha : Apart db.toTables) : Apart db'.toTables := by
  refine (run_induction (P := fun c => Apart c.toTables ∧ c.subnets = db.subnets ∧ c.hub = db.hub) ?_
    (body_allWrites (.setNodeLink src dst)) h ⟨ha, rfl, rfl⟩).1
  rintro w c c' hw hc ⟨hac, hs, hh⟩
  cases hw with
  | setNodeLink =>
    refine ⟨insertLink_apart hc (fun s hsm he => ?_) hac, ?_⟩
    · rw [hh]
      rw [hs] at hsm
      exact hlink s.subnet (List.mem_map.mpr ⟨s, List.mem_filter.mpr ⟨hsm, by simpa using he⟩, rfl⟩)
    · rw [apply_eq_ok] at hc
      rw [← hc]
      exact ⟨hs, hh⟩

/-- **Calls keep rules and links apart**, each where `keepsApart` allows it. -/
theorem apart_of_call (hop : keepsApart op db = true) (h : run apply op.body db = .ok ((), db'))
    (ha : Apart db.toTables) : Apart db'.toTables := by
  have hplain : (∀ w, op.Writes w → Plain w) → Apart db'.toTables := fun hw =>
    run_induction (P := fun c => Apart c.toTables) (fun w _ _ hww hc => plain_apart (hw w hww) hc)
      (body_allWrites op) h ha
  cases op with
  | createNode id name lanIface subnets keys psk =>
    obtain ⟨a, h⟩ := run_discard h
    exact apart_createNode (of_decide_eq_true hop) h ha
  | enrollNode id newToken name hostname lanIface pubkey subnets pick =>
    obtain ⟨a, h⟩ := run_discard h
    exact apart_enrollNode (of_decide_eq_true hop) h ha
  | ensureHubNode id => exact apart_ensureHubNode h ha
  | setGrantRules client node rules => exact apart_setGrantRules (of_decide_eq_true hop) h ha
  | setNodeLink src dst => exact apart_setNodeLink (of_decide_eq_true hop) h ha
  | createClient | approveNode | rejectNode | deleteNode | renameNode | setNodeDNS | setNodeColor
  | setNodeDomains | deleteClient | updateClient | renameClient | setClientColor | setGrant | deleteGrant
  | setGrantExit | deleteNodeLink =>
    refine hplain fun w hw => ?_
    cases hw <;> first | trivial | exact fun _ => ⟨rfl, rfl⟩

/-! ## Reachable states -/

/-- An active node has an address. -/
def ActiveHasAddr (t : Tables) : Prop := ∀ n ∈ t.nodes, n.status = .active → n.address ≠ none

/-- A write after which an active node has an address if that was so before. -/
def KeepsActive : Write → Prop
  | .insertNode r => r.status = .active → r.address ≠ none
  | .updateNode _ f => ∀ n, (n.status = .active → n.address ≠ none) → (f n).status = .active → (f n).address ≠ none
  | _ => True

theorem activeHasAddr_of_write {w : Write} (hw : KeepsActive w) (h : apply w db = .ok db')
    (ha : ActiveHasAddr db.toTables) : ActiveHasAddr db'.toTables := by
  rw [apply_eq_ok] at h
  rw [← h]
  intro n hn
  cases w with
  | insertNode r =>
    rcases List.mem_append.mp hn with hn | hn
    · exact ha n hn
    · exact List.mem_singleton.mp hn ▸ hw
  | updateNode id f =>
    obtain ⟨m, hm, rfl⟩ := List.mem_map.mp hn
    split
    · exact hw m (ha m hm)
    · exact ha m hm
  | deleteNode id => exact ha n (List.mem_filter.mp hn).1
  | insertSubnet | deleteSubnet | insertDomain | deleteDomain | insertClient | updateClient | deleteClient
  | insertGrant | setExit | deleteGrant | insertRule | deleteRule | insertLink | deleteLink => exact ha n hn

theorem writes_keepsActive {w : Write} (h : op.Writes w) : KeepsActive w := by
  cases h
  case createNode | ensureHubNode => exact fun _ => by simp [createdNode, hubNode]
  case enrollNode => exact fun h => absurd h (by simp [enrolledNode])
  case enrollNode_known =>
    intro n hn h
    refine hn ?_
    simp only [announce, reannounced] at h
    split at h
    · exact absurd h (by simp)
    · exact h
  case approveNode => exact fun _ _ _ => by simp [activate]
  case rejectNode => exact fun _ _ h => absurd h (by simp [reject])
  case renameNode | setNodeDNS | setNodeColor => exact fun _ hn => hn
  all_goals trivial

theorem activeHasAddr_of_calls {P : Op → Db → Prop} {secret : String}
    (h : Calls apply Op.body P (Db.boot hub secret) db) : ActiveHasAddr db.toTables := by
  induction h with
  | refl => exact fun n hn => absurd hn List.not_mem_nil
  | tail _ hcall ih =>
    obtain ⟨op, -, hrun⟩ := hcall
    exact run_induction (P := fun c => ActiveHasAddr c.toTables)
      (fun w _ _ hw => activeHasAddr_of_write (writes_keepsActive hw)) (body_allWrites op) hrun ih

/-- The invariants of the states that calls allowed by `keepsApart` reach. -/
structure Reached (hub : Hub) (db : Db) : Prop where
  addrs : AddrInv hub db
  active : ActiveHasAddr db.toTables
  apart : Apart db.toTables

theorem reached_of_calls {secret : String}
    (h : Calls apply Op.body (fun op db => keepsApart op db = true) (Db.boot hub secret) db) :
    Reached hub db := by
  refine ⟨addrInv_of_steps (stepsIn_of_calls (fun _ => trivial) (fun _ => trivial) h),
    activeHasAddr_of_calls h, ?_⟩
  induction h with
  | refl => exact ⟨fun r hr => absurd hr List.not_mem_nil, fun l hl => absurd hl List.not_mem_nil⟩
  | tail _ hcall ih =>
    obtain ⟨op, hop, hrun⟩ := hcall
    exact apart_of_call hop hrun ih

/-- The LANs of different active nodes do not overlap, the hub node's aside. -/
def LansDisjoint (t : Tables) : Prop :=
  ∀ n ∈ t.nodes, ∀ m ∈ t.nodes, n.status = .active → m.status = .active → n.isHub = false →
    m.isHub = false → n.id ≠ m.id → ∀ s ∈ t.subnetsOf n.id, ∀ s' ∈ t.subnetsOf m.id, s.overlaps s' = false

instance (t : Tables) : Decidable (LansDisjoint t) :=
  inferInstanceAs (Decidable (∀ _ ∈ _, ∀ _ ∈ _, _ → _ → _ → _ → _ → ∀ _ ∈ _, ∀ _ ∈ _, _))

/-- A new packet from an enabled client into a LAN of an active node, by the tunnel interface `awg`. -/
@[mk_iff]
structure LanPacket (awg : String) (t : Tables) (c : ClientRow) (n : NodeRow) (p : Packet) : Prop where
  client : c ∈ t.clients
  enabled : c.enabled = true
  node : n ∈ t.nodes
  active : n.status = .active
  notHub : n.isHub = false
  ct : ¬ (p.ct = .established ∨ p.ct = .related)
  src : c.address = .v4 p.src
  dst : ∃ s ∈ t.subnetsOf n.id, s.contains (.v4 p.dst) = true
  oif : p.oif = awg

instance (awg : String) (t : Tables) (c : ClientRow) (n : NodeRow) (p : Packet) :
    Decidable (LanPacket awg t c n p) := decidable_of_iff _ (lanPacket_iff ..).symm

/-- The forward chain of a snapshot opens a node's LAN only to clients that have a grant of that node. -/
def LeastPrivilege (awg : String) (t : Tables) (out : Snapshot) : Prop :=
  ∀ c n p, LanPacket awg t c n p →
    (forwardChain out.hub out.nodes out.grants out.links).accepts p = true →
      (c.id, n.id) ∈ t.grants.map GrantRow.key

theorem isHubId_of_mem (db : Db) {n : NodeRow} (hn : n ∈ db.nodes) : db.isHubId n.id = n.isHub := by
  cases hh : n.isHub with
  | true => exact List.any_eq_true.mpr ⟨n, hn, by simp [hh]⟩
  | false =>
    refine Bool.eq_false_iff.mpr fun he => ?_
    obtain ⟨m, hm, hmid⟩ := List.any_eq_true.mp he
    obtain ⟨hid, hmh⟩ := of_decide_eq_true hmid
    rw [node_eq_of_id db.wf hm hn hid, hh] at hmh
    exact absurd hmh (by simp)

variable {awg : String} {out : Snapshot} {c : ClientRow} {n m : NodeRow} {p : Packet}

/-- A grant of another node's permits no packet into this one's LAN. -/
theorem not_permits_other (hr : Reached hub db) (hwan : awg ≠ hub.wanIface) (hdisj : LansDisjoint db.toTables)
    (hout : SnapshotOf db.toTables out) (hp : LanPacket awg db.toTables c n p) (hm : m ∈ db.nodes)
    (hmactive : m.status = .active) (hnm : n.id ≠ m.id) {g : Grant}
    (hsub : g.subnets.Perm (db.subnetsOf m.id)) (hexit : g.isExit = m.isHub)
    (hrules : ∀ rule ∈ g.rules, ∃ rr ∈ db.grantRules, rr.nodeId = m.id ∧ rule = toRule rr) :
    ¬ g.Permits hub out.nodes p := by
  obtain ⟨s, hs, hdst⟩ := hp.dst
  rintro (⟨-, ho⟩ | ⟨-, -, hmesh⟩ | ⟨hx, -, s', hs', hd'⟩ | ⟨hx, r, hrm, hperm⟩)
  · exact hwan (hp.oif.symm.trans ho)
  · -- a node exit covers what is outside the mesh
    have hlive : n ∈ db.liveNodes :=
      List.mem_filter.mpr ⟨hp.node, by simpa [hp.active] using hr.active n hp.node hp.active⟩
    obtain ⟨x, hx, hxs, he⟩ := hout.live hlive
    refine hmesh (Or.inl ⟨x, hx, ?_, s, hxs.mem_iff.mpr hs, hdst⟩)
    rw [he]
    exact hp.notHub
  · -- the other node's LAN is disjoint
    have hno := hdisj n hp.node m hm hp.active hmactive hp.notHub (hexit.symm.trans hx) hnm s hs s'
      (hsub.mem_iff.mp hs')
    rw [overlaps_of_contains hdst hd'] at hno
    exact absurd hno (by simp)
  · -- the other node's rules are apart
    obtain ⟨rr, hrr, hrnode, rfl⟩ := hrules r hrm
    have hdest : rr.dest.contains (.v4 p.dst) = true := hperm.1
    have hno := hr.apart.rules rr hrr ⟨n.id, s⟩ (mem_subnetsOf.mp hs) (by rw [hrnode]; exact hnm)
      (by rw [hrnode, isHubId_of_mem db hm, ← hexit, hx]) (by rw [isHubId_of_mem db hp.node, hp.notHub])
    rw [overlaps_of_contains hdest hdst] at hno
    exact absurd hno (by simp)

/-- No link carries a packet from a client's address. -/
theorem not_link_permits (hr : Reached hub db) (hout : SnapshotOf db.toTables out)
    (hp : LanPacket awg db.toTables c n p) {l : NodeLink} (hl : l ∈ out.links) : ¬ l.Permits p := by
  obtain ⟨row, hrow, a, ha, b, hb, haid, -, haddr, hasub, -⟩ := hout.link hl
  obtain ⟨ha, halive⟩ := List.mem_filter.mp ha
  rintro ⟨hsrc | ⟨s, hs, hsc⟩, -⟩
  · -- the source node would hold the client's address
    refine hr.addrs.disjoint a ha c hp.client ?_
    cases hea : a.address with
    | none => exact absurd hea (of_decide_eq_true halive).2
    | some x =>
      rw [hea] at haddr
      rw [hp.src, ← hsrc, haddr]
      rfl
  · -- the source LAN would hold it
    have hno := hr.apart.links row hrow ⟨a.id, s⟩ (mem_subnetsOf.mp (hasub.mem_iff.mp hs)) haid
    have hpool := (hr.addrs.client_host c hp.client).inPool
    rw [hp.src] at hpool
    rw [hr.addrs.hub_eq, overlaps_of_contains hpool hsc] at hno
    exact absurd hno (by simp)

/-- **Least privilege.** In every state reached from the first start by calls that `keepsApart` allows, and
    in which the active nodes' LANs are disjoint, the forward chain of the state's snapshot opens a node's
    LAN only to clients with a grant of that node. -/
theorem least_privilege {secret : String} (hwan : awg ≠ hub.wanIface)
    (hcalls : Calls apply Op.body (fun op db => keepsApart op db = true) (Db.boot hub secret) db)
    (hdisj : LansDisjoint db.toTables) (hout : SnapshotOf db.toTables out) :
    LeastPrivilege awg db.toTables out := by
  have hr := reached_of_calls hcalls
  have hhub : out.hub = hub := by
    obtain ⟨_, _, _, _, _, -, -, -, -, -, rfl⟩ := hout
    exact hr.addrs.hub_eq
  intro c n p hp haccept
  rw [hhub] at haccept
  rcases forwardChain_accepts.mp haccept with hct | ⟨g, hg, hgsrc, hperm⟩ | ⟨l, hl, hperm⟩
  · exact absurd hct hp.ct
  · obtain ⟨row, hrow, c', hc', m, hm, -, hcid, hmid, haddr, -, hsub, hrules, hexit, -⟩ := hout.grant hg
    obtain ⟨hm, hlive⟩ := List.mem_filter.mp hm
    -- addresses are distinct, so the grant is one of this client
    obtain rfl : c' = c := client_eq_of_address db.wf hc' hp.client
      (haddr.symm.trans (hgsrc.trans hp.src.symm))
    by_cases hnm : n.id = m.id
    · exact List.mem_map.mpr ⟨row, hrow, by rw [GrantRow.key, hnm, hcid, hmid]⟩
    · refine absurd hperm (not_permits_other hr hwan hdisj hout hp hm (of_decide_eq_true hlive).1 hnm hsub
        hexit fun rule hrule => ?_)
      obtain ⟨rr, hrr, hkey, he⟩ := hrules rule hrule
      exact ⟨rr, hrr, (congrArg Prod.snd hkey).trans hmid.symm, he⟩
  · exact absurd hperm (not_link_permits hr hout hp hl)

/-! ### A rule into another node's LAN -/

/-- A client with a grant of the first of two nodes, and a rule on it with this destination. -/
def ruleSetup (dest : String) : List Op :=
  [.createNode 1 "home" "eth0" [⟨.ofBytes 192 168 1 0, 24⟩] ⟨"priv1", "pub1"⟩ "",
    .createNode 2 "office" "eth0" [⟨.ofBytes 192 168 2 0, 24⟩] ⟨"priv2", "pub2"⟩ "",
    .createClient 3 "phone" "" ⟨"priv3", "pub3"⟩ "", .setGrant 3 1,
    .setGrantRules 3 1 [⟨dest, "any", 0, 0⟩]]

/-- A packet from the client into the second node's LAN. -/
def lanPacket : Packet where
  src := 0x0a080004
  dst := 0xc0a80205
  oif := "awg0"
  proto := .tcp
  dport := 443
  ct := .new

/-- **The defect.** `SetGrantRules` accepts a rule on the first node's grant whose destination is the second
    node's LAN, and the rendered chain then opens that LAN to a client with no grant of its node. -/
theorem setGrantRules_opens_other : ∃ db,
    runAll apply Op.body (fun _ _ => true) (Db.boot demoHub "") (ruleSetup "192.168.2.0/24") = some db ∧
    LansDisjoint db.toTables ∧ SnapshotOf db.toTables (snapshot db.toTables) ∧
    ¬ LeastPrivilege "awg0" db.toTables (snapshot db.toTables) := by
  have hrun : ((runAll apply Op.body (fun _ _ => true) (Db.boot demoHub "")
      (ruleSetup "192.168.2.0/24")).any fun db => LansDisjoint db.toTables ∧
        ∃ c ∈ db.clients, ∃ n ∈ db.nodes, LanPacket "awg0" db.toTables c n lanPacket ∧
          (let out := snapshot db.toTables
           (forwardChain out.hub out.nodes out.grants out.links).accepts lanPacket = true) ∧
          (c.id, n.id) ∉ db.grants.map GrantRow.key) = true := by decide +kernel
  obtain ⟨db, hdb, hcheck⟩ := (Option.any_eq_true _ _).mp hrun
  obtain ⟨hdisj, c, hc, n, hn, hp, haccept, hno⟩ := of_decide_eq_true hcheck
  exact ⟨db, hdb, hdisj, snapshot_spec _, fun hlp => hno (hlp c n _ hp haccept)⟩

/-- A rule on a host of the granted node's own LAN passes the check. -/
theorem least_privilege_own : ∃ db,
    runAll apply Op.body keepsApart (Db.boot demoHub "") (ruleSetup "192.168.1.10/32") = some db ∧
    LeastPrivilege "awg0" db.toTables (snapshot db.toTables) := by
  have hrun : ((runAll apply Op.body keepsApart (Db.boot demoHub "") (ruleSetup "192.168.1.10/32")).any
      fun db => LansDisjoint db.toTables) = true := by decide +kernel
  obtain ⟨db, hdb, hdisj⟩ := (Option.any_eq_true _ _).mp hrun
  exact ⟨db, hdb, least_privilege (by decide) (calls_of_runAll hdb) (of_decide_eq_true hdisj)
    (snapshot_spec _)⟩

end Store
end BeautyAwg
