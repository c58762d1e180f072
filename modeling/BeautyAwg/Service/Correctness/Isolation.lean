import BeautyAwg.Awg.Correctness.NftMeaning
import BeautyAwg.Service.Reconcile
import BeautyAwg.Store.Correctness.Grants

/-!
# `Service.Correctness.Isolation`: devices do not get into each other's way

Requests about other devices write other devices' rows. So whatever these requests are and however they overlap,
the device has the same configuration, the same peer on the hub, the same exit and the same access afterwards
(`device_unaffected`), in whichever order the queries return their rows.

## Contents
- **Rows.** `AboutOthers`, `LeavesAlone`, `body_leavesAlone`; `SameFor`, `sameFor_write`, `sameFor_steps`.
- **Nodes.** `NodeLike`, `NodesRead.like`: two reads of one table of nodes.
- **What is made of the rows.** `grant_like`, `accepts_like`, `export_like`.
- **Runs.** `device_unaffected`.
-/

namespace BeautyAwg
namespace Service

open Netip Awg Store Txn

variable {d : Uuid} {db db' : Db} {t t' : Tables}

/-! ## Rows -/

/-- The call is about another device. -/
def AboutOthers (d : Uuid) : Op → Prop
  | .createClient id .. | .deleteClient id | .updateClient id .. | .renameClient id _ | .setClientColor id _ => id ≠ d
  | .setGrant id _ | .deleteGrant id _ | .setGrantRules id .. | .setGrantExit id .. => id ≠ d
  | _ => False

instance (d : Uuid) : DecidablePred (AboutOthers d) := fun op => by
  unfold AboutOthers
  split <;> infer_instance

/-- The write is to another device's row or to one of its grants. -/
def LeavesAlone (d : Uuid) : Write → Prop
  | .insertClient r => r.id ≠ d
  | .updateClient id f => id ≠ d ∧ ∀ c, (f c).id = c.id
  | .deleteClient id => id ≠ d
  | .insertGrant g => g.clientId ≠ d
  | .setExit key _ => key.1 ≠ d
  | .deleteGrant key => key.1 ≠ d
  | .insertRule r => r.clientId ≠ d
  | .deleteRule r => r.clientId ≠ d
  | _ => False

/-- A call about other devices writes nothing of this one. -/
theorem body_leavesAlone {op : Op} (h : AboutOthers d op) : AllWrites (LeavesAlone d) op.body := by
  cases op with
  | setGrantRules id node rules =>
    -- the rules it drops are those of its own grant
    refine allWrites_bind (allWrites_read _) fun exist => ?_
    split
    · refine ⟨fun v x hx => ?_, fun _ => allWrites_insertRules fun r _ dest _ => h⟩
      obtain ⟨r, hr, rfl⟩ := List.mem_map.mp hx
      have hkey : r.key = (id, node) := of_decide_eq_true (List.mem_filter.mp hr).2
      have hclient : r.clientId = id := congrArg Prod.fst hkey
      change r.clientId ≠ d
      rw [hclient]
      exact h
    · trivial
  | createClient | deleteClient | setGrant | deleteGrant | setGrantExit =>
    refine (body_allWrites _).mono fun w hw => ?_
    cases hw
    exact h
  | updateClient | renameClient | setClientColor =>
    refine (body_allWrites _).mono fun w hw => ?_
    cases hw
    exact ⟨h, fun _ => rfl⟩
  | _ => exact absurd h id

/-- The tables agree on all that is not about clients, and on the device's own rows. -/
structure SameFor (d : Uuid) (t t' : Tables) : Prop where
  hub : t'.hub = t.hub
  nodes : t'.nodes = t.nodes
  subnets : t'.subnets = t.subnets
  domains : t'.domains = t.domains
  links : t'.links = t.links
  client : (t'.clients.filter fun c => c.id = d) = t.clients.filter fun c => c.id = d
  grants : (t'.grants.filter fun g => g.clientId = d) = t.grants.filter fun g => g.clientId = d
  rules : (t'.grantRules.filter fun r => r.clientId = d) = t.grantRules.filter fun r => r.clientId = d

namespace SameFor

theorem refl (d : Uuid) (t : Tables) : SameFor d t t := ⟨rfl, rfl, rfl, rfl, rfl, rfl, rfl, rfl⟩

theorem symm (h : SameFor d t t') : SameFor d t' t :=
  ⟨h.hub.symm, h.nodes.symm, h.subnets.symm, h.domains.symm, h.links.symm, h.client.symm, h.grants.symm, h.rules.symm⟩

theorem trans {t'' : Tables} (h : SameFor d t t') (h' : SameFor d t' t'') : SameFor d t t'' :=
  ⟨h'.hub.trans h.hub, h'.nodes.trans h.nodes, h'.subnets.trans h.subnets, h'.domains.trans h.domains,
    h'.links.trans h.links, h'.client.trans h.client, h'.grants.trans h.grants, h'.rules.trans h.rules⟩

end SameFor

/-- Rows that are dropped are not among those that are kept. -/
theorem filter_filter_of_imp {α : Type} {p q : α → Bool} {l : List α} (h : ∀ a ∈ l, p a = true → q a = true) :
    (l.filter q).filter p = l.filter p := by
  rw [List.filter_filter]
  refine List.filter_congr fun a ha => ?_
  cases hp : p a with
  | false => simp
  | true => simp [h a ha hp]

/-- An edit of rows that do not count. -/
theorem filter_map_of_ne {α : Type} {p : α → Bool} {f : α → α} {l : List α}
    (h : ∀ a ∈ l, p (f a) = p a ∧ (p a = true → f a = a)) : (l.map f).filter p = l.filter p := by
  induction l with
  | nil => rfl
  | cons a l ih =>
    obtain ⟨hsame, hkeep⟩ := h a List.mem_cons_self
    have htail := ih fun x hx => h x (List.mem_cons_of_mem _ hx)
    rw [List.map_cons, List.filter_cons, List.filter_cons, hsame, htail]
    cases hp : p a with
    | false => rfl
    | true => rw [hkeep hp]

theorem filter_erase_of_ne {α : Type} [DecidableEq α] {p : α → Bool} {a : α} {l : List α} (h : p a = false) :
    (l.erase a).filter p = l.filter p := by
  induction l with
  | nil => rfl
  | cons b l ih =>
    by_cases hb : b = a
    · subst hb
      rw [List.erase_cons_head, List.filter_cons_of_neg (by simp [h])]
    · rw [List.erase_cons_tail (by simpa using hb), List.filter_cons, List.filter_cons, ih]

/-- **Step.** A write to other devices' rows. -/
theorem sameFor_write {w : Write} (hw : LeavesAlone d w) (h : apply w db = .ok db') :
    SameFor d db.toTables db'.toTables := by
  rw [apply_eq_ok] at h
  rw [← h]
  cases w with
  | insertClient r =>
    refine ⟨rfl, rfl, rfl, rfl, rfl, ?_, rfl, rfl⟩
    change (db.clients ++ [r]).filter _ = _
    have hne : r.id ≠ d := hw
    simp [List.filter_append, hne]
  | updateClient id f =>
    refine ⟨rfl, rfl, rfl, rfl, rfl, ?_, rfl, rfl⟩
    obtain ⟨hne, hid⟩ := hw
    refine filter_map_of_ne fun c _ => ?_
    by_cases hc : c.id = id
    · simp [hc, hid, hne]
    · simp [hc]
  | deleteClient id =>
    have hne : id ≠ d := hw
    refine ⟨rfl, rfl, rfl, rfl, rfl, filter_filter_of_imp fun c _ hc => ?_, filter_filter_of_imp fun g _ hg => ?_,
      filter_filter_of_imp fun r _ hr => ?_⟩
    · simpa [of_decide_eq_true hc] using hne.symm
    · simpa [of_decide_eq_true hg] using hne.symm
    · simpa [of_decide_eq_true hr] using hne.symm
  | insertGrant g =>
    refine ⟨rfl, rfl, rfl, rfl, rfl, rfl, ?_, rfl⟩
    have hne : g.clientId ≠ d := hw
    change (if _ then _ else _ : List GrantRow).filter _ = _
    split
    · rfl
    · simp [List.filter_append, hne]
  | setExit key exit =>
    refine ⟨rfl, rfl, rfl, rfl, rfl, rfl, filter_map_of_ne fun g _ => ?_, rfl⟩
    have hne : key.1 ≠ d := hw
    by_cases hg : g.key = key
    · have hclient : g.clientId ≠ d := fun he => hne (hg ▸ he)
      simp [hg, hclient]
    · simp [hg]
  | deleteGrant key =>
    have hne : key.1 ≠ d := hw
    refine ⟨rfl, rfl, rfl, rfl, rfl, rfl, filter_filter_of_imp fun g _ hg => ?_, filter_filter_of_imp fun r _ hr => ?_⟩
    · have hclient : g.clientId = d := of_decide_eq_true hg
      -- what the cascade takes is another device's
      exact decide_eq_true fun he => hne (he ▸ hclient)
    · have hclient : r.clientId = d := of_decide_eq_true hr
      exact decide_eq_true fun he => hne (he ▸ hclient)
  | insertRule r =>
    refine ⟨rfl, rfl, rfl, rfl, rfl, rfl, rfl, ?_⟩
    have hne : r.clientId ≠ d := hw
    change (db.grantRules ++ [r]).filter _ = _
    simp [List.filter_append, hne]
  | deleteRule r =>
    refine ⟨rfl, rfl, rfl, rfl, rfl, rfl, rfl, filter_erase_of_ne (decide_eq_false ?_)⟩
    exact hw
  | _ => exact absurd hw id

/-- **Run.** -/
theorem sameFor_steps {s : Sys Op Db Write Lock StoreErr}
    (h : StepsIn apply Op.body (OpsIn (AboutOthers d)) (Sys.idle db) s) :
    SameFor d db.toTables s.committed.toTables := by
  refine good_of_writes (W := fun op w => AboutOthers d op → LeavesAlone d w)
    (I := fun c => SameFor d db.toTables c.toTables) (fun op => ?_) ?_ (SameFor.refl d _) h
  · by_cases hop : AboutOthers d op
    · exact (body_leavesAlone hop).mono fun w hw _ => hw
    · exact (allWrites_true op.body).mono fun w _ hother => absurd hother hop
  · exact fun op w c c' hop hw happly hc => hc.trans (sameFor_write (hw hop) happly)

/-! ## Nodes -/

/-- The two are one node, up to its name and the order of its subnets. -/
structure NodeLike (n n' : Node) : Prop where
  address : n'.address = n.address
  subnets : n'.subnets.Perm n.subnets
  isHub : n'.isHub = n.isHub

variable {nodes nodes' : List (Uuid × Node)} {out out' : Snapshot} {p : Nft.Packet} {id : Uuid}

theorem nodeLike_of_row {r : NodeRow} {n n' : Node} (hs : n.subnets.Perm (t.subnetsOf r.id))
    (he : n = r.toNode n.subnets n.domains) (hs' : n'.subnets.Perm (t.subnetsOf r.id))
    (he' : n' = r.toNode n'.subnets n'.domains) : NodeLike n n' := by
  refine ⟨?_, hs'.trans hs.symm, ?_⟩
  · rw [he, he']
    rfl
  · rw [he, he']
    rfl

section Like

variable (hsame : SameFor d db.toTables db'.toTables)

include hsame

theorem liveNodes_same : db'.liveNodes = db.liveNodes := by
  unfold Tables.liveNodes
  rw [hsame.nodes]

theorem subnetsOf_same (id : Uuid) : db'.subnetsOf id = db.subnetsOf id := by
  unfold Tables.subnetsOf
  rw [hsame.subnets]

/-- What one read finds the other finds too. -/
theorem lookup_like (h : NodesRead db.toTables nodes) (h' : NodesRead db'.toTables nodes') {n : Node}
    (hn : nodes.lookup id = some n) : ∃ n', nodes'.lookup id = some n' ∧ NodeLike n n' := by
  have hlive : (nodes'.lookup id).isSome = true := by
    rw [h'.lookup_isSome]
    unfold Tables.nodeLive
    rw [hsame.nodes]
    exact h.lookup_isSome.symm.trans (by rw [hn]; rfl)
  obtain ⟨n', hn'⟩ := Option.isSome_iff_exists.mp hlive
  obtain ⟨r, hr, hrid, hs, he⟩ := h.row (mem_of_lookup hn)
  obtain ⟨r', hr', hrid', hs', he'⟩ := h'.row (mem_of_lookup hn')
  rw [liveNodes_same hsame] at hr'
  obtain rfl := node_eq_of_id db.wf (List.mem_filter.mp hr).1 (List.mem_filter.mp hr').1 (hrid.trans hrid'.symm)
  rw [subnetsOf_same hsame] at hs'
  exact ⟨n', hn', nodeLike_of_row (hrid ▸ hs) he (hrid ▸ hs') he'⟩

/-- Tables that are the same for the device have the same mesh. -/
theorem inMesh_like (h : SnapshotOf db.toTables out) (h' : SnapshotOf db'.toTables out') {y : BitVec 32}
    (hy : InMesh out.hub out.nodes y) : InMesh out'.hub out'.nodes y := by
  rcases hy with ⟨n, hn, hhub, q, hq, hc⟩ | hpool
  · obtain ⟨r, hr, hs, he⟩ := h.node hn
    rw [← liveNodes_same hsame] at hr
    obtain ⟨n', hn', hs', he'⟩ := h'.live hr
    rw [subnetsOf_same hsame] at hs'
    have hlike := nodeLike_of_row hs he hs' he'
    exact .inl ⟨n', hn', hlike.isHub.trans hhub, q, hlike.subnets.mem_iff.mpr hq, hc⟩
  · refine .inr ?_
    rw [h'.hub, hsame.hub, ← h.hub]
    exact hpool

/-- Tables that are the same for the device have the same links. -/
theorem link_like (h : SnapshotOf db.toTables out) (h' : SnapshotOf db'.toTables out') {l : NodeLink}
    (hl : l ∈ out.links) (hp : l.Permits p) : ∃ l' ∈ out'.links, l'.Permits p := by
  obtain ⟨nodes, clients, rules, grants, links, hnodes, -, -, -, hlinks, rfl⟩ := h
  obtain ⟨nodes', clients', rules', grants', links', hnodes', -, -, -, hlinks', rfl⟩ := h'
  obtain ⟨row, hrow, hjoin⟩ := List.mem_filterMap.mp hl
  have hrow' : row ∈ links' := by
    have hmem := hlinks.mem_iff.mp hrow
    rw [← hsame.links] at hmem
    exact hlinks'.mem_iff.mpr hmem
  unfold joinLink at hjoin
  split at hjoin
  · rename_i src dst hsrc hdst
    split at hjoin
    · exact absurd hjoin (by simp)
    · rename_i hne
      obtain rfl := Option.some.inj hjoin
      obtain ⟨src', hsrc', hlikeSrc⟩ := lookup_like hsame hnodes hnodes' hsrc
      obtain ⟨dst', hdst', hlikeDst⟩ := lookup_like hsame hnodes hnodes' hdst
      have hne' : ¬ (src'.subnets = [] ∨ dst'.subnets = []) := by
        rintro (hnil | hnil)
        · exact hne (.inl (List.nil_perm.mp (hnil ▸ hlikeSrc.subnets)))
        · exact hne (.inr (List.nil_perm.mp (hnil ▸ hlikeDst.subnets)))
      refine ⟨⟨src'.address, src'.subnets, dst'.subnets⟩, List.mem_filterMap.mpr ⟨row, hrow', ?_⟩, ?_⟩
      · simp [joinLink, hsrc', hdst', hne']
      · obtain ⟨hfrom, q, hq, hc⟩ := hp
        refine ⟨hfrom.imp (fun he => hlikeSrc.address.trans he) ?_, q, hlikeDst.subnets.mem_iff.mpr hq, hc⟩
        exact fun ⟨s, hs, hsc⟩ => ⟨s, hlikeSrc.subnets.mem_iff.mpr hs, hsc⟩
  · exact absurd hjoin (by simp)

end Like

/-! ## What is made of the rows -/

section Made

variable {c : ClientRow} (hsame : SameFor c.id db.toTables db'.toTables) (hc : c ∈ db.clients)

include hsame

/-- The device's row is still there, and no other row has its id. -/
theorem client_same (x : ClientRow) : x ∈ db'.clients ∧ x.id = c.id ↔ x ∈ db.clients ∧ x.id = c.id := by
  have hiff : x ∈ db'.clients.filter (fun y => y.id = c.id) ↔ x ∈ db.clients.filter fun y => y.id = c.id := by
    rw [hsame.client]
  simpa only [List.mem_filter, decide_eq_true_eq] using hiff

/-- They have the same grants of the device. -/
theorem grant_same (row : GrantRow) :
    row ∈ db'.grants ∧ row.clientId = c.id ↔ row ∈ db.grants ∧ row.clientId = c.id := by
  have hiff : row ∈ db'.grants.filter (fun g => g.clientId = c.id) ↔
      row ∈ db.grants.filter fun g => g.clientId = c.id := by
    rw [hsame.grants]
  simpa only [List.mem_filter, decide_eq_true_eq] using hiff

/-- They have the same rules on these grants. -/
theorem rulesOf_same {row : GrantRow} (hrow : row.clientId = c.id) :
    (db'.grantRules.filter fun r => r.key = row.key) = db.grantRules.filter fun r => r.key = row.key := by
  have hkey : ∀ rules : List RuleRow, (rules.filter fun r => r.key = row.key) =
      (rules.filter fun r => r.clientId = c.id).filter fun r => r.key = row.key := by
    intro rules
    refine (filter_filter_of_imp fun r _ hr => decide_eq_true ?_).symm
    exact (congrArg Prod.fst (of_decide_eq_true hr)).trans hrow
  rw [hkey, hkey db.grantRules, hsame.rules]

/-- A grant of the device is one in either state. -/
theorem carries_like {row : GrantRow} {g g' : Grant} (hrow : row.clientId = c.id) (h : Carries db.toTables row g)
    (h' : Carries db'.toTables row g') : Same g g' := by
  obtain ⟨x, hx, hxid, haddr⟩ := h.client
  obtain ⟨x', hx', hxid', haddr'⟩ := h'.client
  obtain ⟨hx', -⟩ := (client_same hsame x').mp ⟨hx', hxid'.trans hrow⟩
  obtain rfl := client_eq_of_id db.wf hx hx' (hxid.trans hxid'.symm)
  obtain ⟨n, hn, hnid, -, hna, hsub, hdns, hexit, hnexit⟩ := h.node
  obtain ⟨n', hn', hnid', -, hna', hsub', hdns', hexit', hnexit'⟩ := h'.node
  rw [hsame.nodes] at hn'
  obtain rfl := node_eq_of_id db.wf hn hn' (hnid.trans hnid'.symm)
  rw [subnetsOf_same hsame] at hsub'
  have hrules := h'.rules
  rw [rulesOf_same hsame hrow] at hrules
  exact ⟨haddr.trans haddr'.symm, Option.some.inj (hna.symm.trans hna'), hsub.trans hsub'.symm,
    h.rules.trans hrules.symm, hexit.trans hexit'.symm, hnexit.trans hnexit'.symm, hdns.trans hdns'.symm⟩

include hc

/-- The snapshots have the same grants of the device. -/
theorem grant_like (h : SnapshotOf db.toTables out) (h' : SnapshotOf db'.toTables out') {g : Grant}
    (hg : g ∈ out.grants) (haddr : g.clientAddr = c.address) : ∃ g' ∈ out'.grants, Same g g' := by
  obtain ⟨row, hrow, hcarries⟩ := (snapshot_grants h).row hg
  have hclient : row.clientId = c.id := (hcarries.clientAddr_iff hc).mpr haddr
  obtain ⟨hmem, hshown⟩ := List.mem_filter.mp hrow
  obtain ⟨henabled, hlive⟩ := Bool.and_eq_true_iff.mp hshown
  have hrow' : row ∈ db'.shownGrants := by
    refine List.mem_filter.mpr ⟨((grant_same hsame row).mpr ⟨hmem, hclient⟩).1, Bool.and_eq_true_iff.mpr ⟨?_, ?_⟩⟩
    · obtain ⟨x, hx, hxe⟩ := List.any_eq_true.mp henabled
      obtain ⟨hxid, -⟩ := of_decide_eq_true hxe
      exact List.any_eq_true.mpr ⟨x, ((client_same hsame x).mpr ⟨hx, hxid.trans hclient⟩).1, hxe⟩
    · unfold Tables.nodeLive at hlive ⊢
      rw [hsame.nodes]
      exact hlive
  obtain ⟨g', hg', hcarries'⟩ := (snapshot_grants h').item hrow'
  exact ⟨g', hg', carries_like hsame hclient hcarries hcarries'⟩

/-- The hub accepts from the device what it accepted. -/
theorem accepts_like (h : SnapshotOf db.toTables out) (h' : SnapshotOf db'.toTables out')
    (hsrc : c.address = .v4 p.src) (hp : (forwardChain out.hub out.nodes out.grants out.links).accepts p = true) :
    (forwardChain out'.hub out'.nodes out'.grants out'.links).accepts p = true := by
  rw [forwardChain_accepts] at hp ⊢
  rcases hp with hct | ⟨g, hg, haddr, hperm⟩ | ⟨l, hl, hperm⟩
  · exact .inl hct
  · obtain ⟨g', hg', hlike⟩ := grant_like hsame hc h h' hg (haddr.trans hsrc.symm)
    refine .inr (.inl ⟨g', hg', hlike.clientAddr.symm.trans haddr, ?_⟩)
    unfold Grant.Permits at hperm ⊢
    rw [← hlike.isExit, ← hlike.nodeExit]
    rcases hperm with ⟨hexit, hoif⟩ | ⟨hexit, hnode, hout⟩ | ⟨hexit, hnil, s, hs, hcs⟩ | ⟨hexit, r, hr, hpr⟩
    · refine .inl ⟨hexit, ?_⟩
      rw [h'.hub, hsame.hub, ← h.hub]
      exact hoif
    · have hback : SameFor c.id db'.toTables db.toTables := hsame.symm
      exact .inr (.inl ⟨hexit, hnode, fun hin => hout (inMesh_like hback h' h hin)⟩)
    · refine .inr (.inr (.inl ⟨hexit, ?_, s, hlike.subnets.mem_iff.mp hs, hcs⟩))
      exact List.nil_perm.mp (hnil ▸ hlike.rules)
    · exact .inr (.inr (.inr ⟨hexit, r, hlike.rules.mem_iff.mp hr, hpr⟩))
  · obtain ⟨l', hl', hperm'⟩ := link_like hsame h h' hl hperm
    exact .inr (.inr ⟨l', hl', hperm'⟩)

/-- The device exits where it did. -/
theorem exit_like (h : SnapshotOf db.toTables out) (h' : SnapshotOf db'.toTables out') {node : Addr}
    (hexit : ⟨c.address, node⟩ ∈ exitRoutes out.grants) : ⟨c.address, node⟩ ∈ exitRoutes out'.grants := by
  obtain ⟨g, hg, he⟩ := List.mem_map.mp hexit
  obtain ⟨hmem, hnode⟩ := List.mem_filter.mp hg
  obtain ⟨haddr, hnaddr⟩ := ExitRoute.mk.inj he
  obtain ⟨g', hg', hlike⟩ := grant_like hsame hc h h' hmem haddr
  refine List.mem_map.mpr ⟨g', List.mem_filter.mpr ⟨hg', hlike.nodeExit.symm.trans hnode⟩, ?_⟩
  rw [← hlike.clientAddr, ← hlike.nodeAddr, haddr, hnaddr]

/-- The hub has the device for a peer as it had. -/
theorem peer_like (h : SnapshotOf db.toTables out) (h' : SnapshotOf db'.toTables out')
    (hpeer : c.toClient ∈ out.clients) : c.toClient ∈ out'.clients := by
  obtain ⟨r, hr, henabled, he⟩ := h.client hpeer
  have haddr : c.address = r.address := congrArg Client.address he
  obtain rfl := client_eq_of_address db.wf hc hr haddr
  obtain ⟨nodes, clients, rules, grants, links, -, hclients, -, -, -, rfl⟩ := h'
  have hmem : (c.id, c.toClient) ∈ clients := by
    refine hclients.2.mem_iff.mpr (List.mem_map.mpr ⟨c, List.mem_filter.mpr ⟨?_, henabled⟩, rfl⟩)
    exact ((client_same hsame c).mpr ⟨hc, rfl⟩).1
  exact List.mem_map.mpr ⟨_, hmem, rfl⟩

omit hc in
/-- The device is handed out what it was. -/
theorem export_like {exp : ClientExport} (h : ExportOf db.toTables c.id (.ok exp)) :
    ExportOf db'.toTables c.id (.ok exp) := by
  obtain ⟨x, hx, hxid, rows, rules, ⟨subnets, domains, hsubnets, hdomains, hrows⟩, hrules, rfl⟩ := h
  let mine : RuleRow → Bool := fun r => r.clientId = c.id
  -- the device's rules as they were read, and the others as they are now
  let rules' := rules.filter mine ++ db'.grantRules.filter fun r => !mine r
  have hrules' : RulesRead db'.toTables rules' := by
    have hmine : (rules.filter mine).Perm (db'.grantRules.filter mine) := by
      have hfilter := hrules.filter mine
      rwa [← hsame.rules] at hfilter
    exact (hmine.append_right _).trans (List.filter_append_perm mine _)
  have hgrants : db'.clientGrants c.id = db.clientGrants c.id := by
    unfold Tables.clientGrants
    rw [hsame.grants, liveNodes_same hsame]
  have hread : ExportRead db'.toTables c.id rows := by
    refine ⟨subnets, domains, fun r => ?_, fun r => ?_, ?_⟩
    · rw [subnetsOf_same hsame]
      exact hsubnets r
    · unfold Tables.domainsOf
      rw [hsame.domains]
      exact hdomains r
    · rw [hgrants]
      exact hrows
  refine ⟨x, ((client_same hsame x).mpr ⟨hx, hxid⟩).1, hxid, rows, rules', hread, hrules', ?_⟩
  rw [hsame.hub]
  congr 1
  refine List.map_congr_left fun row _ => ?_
  have hkey : (rules'.filter fun r => r.key = (c.id, row.nodeId)) =
      rules.filter fun r => r.key = (c.id, row.nodeId) := by
    have hmine : ∀ r : RuleRow, decide (r.key = (c.id, row.nodeId)) = true → mine r = true :=
      fun r hr => decide_eq_true (congrArg Prod.fst (of_decide_eq_true hr))
    rw [List.filter_append, filter_filter_of_imp fun r _ => hmine r, List.append_right_eq_self]
    refine List.filter_eq_nil_iff.mpr fun r hr hkey => ?_
    have hnot := (List.mem_filter.mp hr).2
    rw [hmine r hkey] at hnot
    exact absurd hnot (by simp)
  unfold exportGrant
  rw [hkey]

end Made

/-! ## Runs -/

/-- **Isolation.** Take a device and any run of requests about other devices, however they overlap. In every state
    reached the device is still there, its configuration can be read as it could before and not otherwise, and
    every snapshot of that state has it as a peer, gives it an exit node and lets its packets pass just when a
    snapshot from before does. -/
theorem device_unaffected {c : ClientRow} (hc : c ∈ db.clients) {s : Sys Op Db Write Lock StoreErr}
    (h : StepsIn apply Op.body (OpsIn (AboutOthers c.id)) (Sys.idle db) s) :
    c ∈ s.committed.clients ∧
      (∀ exp, ExportOf s.committed.toTables c.id (.ok exp) ↔ ExportOf db.toTables c.id (.ok exp)) ∧
        ∀ out out', SnapshotOf db.toTables out → SnapshotOf s.committed.toTables out' →
          (c.toClient ∈ out'.clients ↔ c.toClient ∈ out.clients) ∧
            (∀ node, ⟨c.address, node⟩ ∈ exitRoutes out'.grants ↔ ⟨c.address, node⟩ ∈ exitRoutes out.grants) ∧
              ∀ p : Nft.Packet, c.address = .v4 p.src →
                ((forwardChain out'.hub out'.nodes out'.grants out'.links).accepts p = true ↔
                  (forwardChain out.hub out.nodes out.grants out.links).accepts p = true) := by
  have hsame := sameFor_steps h
  have hc' : c ∈ s.committed.clients := ((client_same hsame c).mpr ⟨hc, rfl⟩).1
  have hback : SameFor c.id s.committed.toTables db.toTables := hsame.symm
  refine ⟨hc', fun exp => ⟨export_like hback, export_like hsame⟩, fun out out' hout hout' => ⟨?_, fun node => ?_, ?_⟩⟩
  · exact ⟨peer_like hback hc' hout' hout, peer_like hsame hc hout hout'⟩
  · exact ⟨exit_like hback hc' hout' hout, exit_like hsame hc hout hout'⟩
  · exact fun p hsrc => ⟨accepts_like hback hc' hout' hout hsrc, accepts_like hsame hc hout hout' hsrc⟩

/-- Two devices on one node; the second is made to exit through it and is deleted. -/
theorem device_unaffected_neighbour : ∃ db db' : Db, ∃ c ∈ db.clients,
    db.clients.map ClientRow.id = [2, 3] ∧ db'.clients.map ClientRow.id = [2] ∧
      ∀ out out', SnapshotOf db.toTables out → SnapshotOf db'.toTables out' →
        ∀ p : Nft.Packet, c.address = .v4 p.src →
          ((forwardChain out'.hub out'.nodes out'.grants out'.links).accepts p = true ↔
            (forwardChain out.hub out.nodes out.grants out.links).accepts p = true) := by
  let before : List Op :=
    [.createNode 1 "home" "eth0" [⟨.v4 0xc0a80100, 24⟩] ⟨"", "pub1"⟩ "", .createClient 2 "phone" "" ⟨"", "pub2"⟩ "",
      .createClient 3 "laptop" "" ⟨"", "pub3"⟩ "", .setGrant 2 1]
  let others : List Op := [.setGrant 3 1, .setGrantExit 3 1 true, .deleteClient 3]
  have hrun : ((runAll apply Op.body (fun _ _ => true) (Db.boot demoHub "") before).bind fun db =>
      (runAll apply Op.body (fun _ _ => true) db others).map fun db' =>
        (db.clients.map ClientRow.id, db'.clients.map ClientRow.id)) = some ([2, 3], [2]) := by decide +kernel
  obtain ⟨db, -, hrest⟩ := Option.bind_eq_some_iff.mp hrun
  obtain ⟨db', hdb', hids⟩ := Option.map_eq_some_iff.mp hrest
  obtain ⟨hbefore, hafter⟩ := Prod.mk.inj hids
  obtain ⟨c, hc, hid⟩ : ∃ c ∈ db.clients, c.id = 2 := List.mem_map.mp (hbefore ▸ List.mem_cons_self)
  have hothers : ∀ op ∈ others, AboutOthers c.id op := by
    rw [hid]
    decide
  refine ⟨db, db', c, hc, hbefore, hafter, fun out out' hout hout' => ?_⟩
  exact ((device_unaffected hc (stepsIn_of_runAll hothers hdb')).2.2 out out' hout hout').2.2

end Service
end BeautyAwg
