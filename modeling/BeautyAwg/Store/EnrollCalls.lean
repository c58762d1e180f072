import BeautyAwg.Lib.Rows
import BeautyAwg.Store.GrantCalls

/-!
# `Store.EnrollCalls`: when an announcement is accepted

The converse of `Store.Effect` for `EnrollNode`: a row's columns after an edit of one node, and what a known
node has to announce so that no constraint refuses it.

## Contents
- **Edits.** `map_editNode`, `filterMap_editNode`, `find_editNode`, `constraints_editNode`.
- **Acceptance.** `accepts_announcement`.
-/

namespace BeautyAwg
namespace Store

open Netip Txn

variable {t : Tables} {db : Db} {id : Uuid} {f : NodeRow → NodeRow}

/-! ## Edits -/

/-- A column that the edit leaves alone. -/
theorem map_editNode {α : Type} {g : NodeRow → α} (hg : ∀ n, g (f n) = g n) :
    (t.editNode id f).nodes.map g = t.nodes.map g := by
  show List.map g (List.map _ t.nodes) = _
  rw [List.map_map]
  refine List.map_congr_left fun n _ => ?_
  show g (if n.id = id then f n else n) = g n
  split
  · exact hg n
  · rfl

theorem filterMap_editNode {α : Type} {g : NodeRow → Option α} (hg : ∀ n, g (f n) = g n) :
    (t.editNode id f).nodes.filterMap g = t.nodes.filterMap g := by
  have hid : ∀ l : List NodeRow, l.filterMap g = (l.map g).filterMap fun o => o := by
    intro l
    rw [List.filterMap_map]
    rfl
  rw [hid, map_editNode hg, ← hid]

theorem hubs_editNode (hg : ∀ n, (f n).isHub = n.isHub) :
    ((t.editNode id f).nodes.filter NodeRow.isHub).length = (t.nodes.filter NodeRow.isHub).length := by
  have hcount : ∀ l : List NodeRow,
      (l.filter NodeRow.isHub).length = ((l.map NodeRow.isHub).filter fun b => b).length := by
    intro l
    rw [List.filter_map, List.length_map]
    rfl
  rw [hcount, map_editNode hg, ← hcount]

/-- The first row that satisfies a condition on what the edit leaves alone. -/
theorem find_editNode {p : NodeRow → Bool} (hp : ∀ n, p (f n) = p n) :
    (t.editNode id f).nodes.find? p = (t.nodes.find? p).map fun n => if n.id = id then f n else n := by
  show List.find? p (List.map _ t.nodes) = _
  rw [List.find?_map]
  congr 1
  refine List.find?_congr fun n _ => ?_
  simp only [Function.comp_apply]
  split
  · exact hp n
  · rfl

/-- What an edit leaves alone of the columns with constraints. -/
structure KeepsColumns (f : NodeRow → NodeRow) : Prop where
  id : ∀ n, (f n).id = n.id
  name : ∀ n, (f n).name = n.name
  address : ∀ n, (f n).address = n.address
  isHub : ∀ n, (f n).isHub = n.isHub

/-- An edit of nothing but the token can break the constraint on tokens only. -/
theorem constraints_editNode (wf : t.Constraints) (hf : KeepsColumns f)
    (htokens : ((t.editNode id f).nodes.filterMap NodeRow.enrollToken).Nodup) : (t.editNode id f).Constraints := by
  obtain ⟨hpkey, hname, haddress, -, hrest⟩ := (Tables.constraints_iff t).mp wf
  rw [Tables.constraints_iff, map_editNode hf.id, map_editNode hf.name, filterMap_editNode hf.address,
    hubs_editNode hf.isHub]
  exact ⟨hpkey, hname, haddress, htokens, hrest⟩

/-- A token of the row's own or of none keeps the tokens apart. -/
theorem nodup_tokens_editNode (wf : t.Constraints)
    (hnew : ∀ n ∈ t.nodes, n.id = id → ∀ m ∈ t.nodes, m.id ≠ id → ∀ token, (f n).enrollToken = some token →
      m.enrollToken ≠ some token) :
    ((t.editNode id f).nodes.filterMap NodeRow.enrollToken).Nodup := by
  have hids : t.nodes.Pairwise fun n m => n.id ≠ m.id := List.pairwise_map.mp wf.nodes_pkey
  have htokens := List.pairwise_filterMap.mp wf.nodes_enroll_token_key
  refine List.pairwise_filterMap.mpr (List.pairwise_map.mpr ?_)
  refine (hids.and htokens).imp_of_mem ?_
  rintro n m hn hm ⟨hne, hold⟩ token htoken token' htoken'
  by_cases h : n.id = id
  · have h' : m.id ≠ id := fun he => hne (h.trans he.symm)
    rw [if_pos h] at htoken
    rw [if_neg h'] at htoken'
    rintro rfl
    exact hnew n hn h m hm h' token htoken htoken'
  · rw [if_neg h] at htoken
    by_cases h' : m.id = id
    · rw [if_pos h'] at htoken'
      rintro rfl
      exact hnew m hm h' n hn h token htoken' htoken
    · rw [if_neg h'] at htoken'
      exact hold token htoken token' htoken'

/-! ## Acceptance -/

theorem keepsColumns_announce (token hostname lanIface : String) : KeepsColumns (announce token hostname lanIface) :=
  ⟨fun _ => rfl, fun _ => rfl, fun _ => rfl, fun _ => rfl⟩

/-- A new token is one that no row has. -/
theorem constraints_announce {r : NodeRow} {newToken : String} (hostname lanIface : String) (hr : r ∈ db.nodes)
    (hnew : ∀ n ∈ db.nodes, n.enrollToken ≠ some newToken) :
    (Write.eval db.toTables
      (.updateNode r.id (announce (derefOr r.enrollToken newToken) hostname lanIface))).Constraints := by
  refine constraints_editNode db.wf (keepsColumns_announce _ _ _) ?_
  refine nodup_tokens_editNode db.wf fun n hn hid m hm hne token htoken hm_token => ?_
  obtain rfl := node_eq_of_id db.wf hn hr hid
  obtain rfl := Option.some.inj htoken
  rcases derefOr_cases n.enrollToken newToken with hold | hdrawn
  · exact hne (congrArg NodeRow.id (eq_of_nodup_filterMap db.wf.nodes_enroll_token_key hm hn hm_token hold))
  · exact hnew m hm (hdrawn ▸ hm_token)

theorem constraints_deleteSubnet {s : SubnetRow} : (Write.eval db.toTables (.deleteSubnet s)).Constraints :=
  { db.wf with
    subnets_pkey := db.wf.subnets_pkey.erase s
    subnets_node_fkey := fun x hx => db.wf.subnets_node_fkey x (List.mem_of_mem_erase hx)
    subnets_cidr := fun x hx => db.wf.subnets_cidr x (List.mem_of_mem_erase hx) }

theorem applyAll_deleteSubnets (rows : List SubnetRow) :
    ∃ db', applyAll apply (rows.map .deleteSubnet) db = .ok db' := by
  induction rows generalizing db with
  | nil => exact ⟨db, rfl⟩
  | cons s rows ih =>
    have hkept : (Write.eval db.toTables (.deleteSubnet s)).Constraints := constraints_deleteSubnet
    obtain ⟨db', h⟩ := @ih ⟨_, hkept⟩
    exact ⟨db', applyAll_cons_ok.mpr ⟨_, apply_ok hkept, h⟩⟩

theorem constraints_insertSubnet {s : SubnetRow} (hnew : s ∉ db.subnets) (hnode : s.nodeId ∈ db.nodes.map NodeRow.id)
    (hcidr : IsCidr s.subnet) : (Write.eval db.toTables (.insertSubnet s)).Constraints := by
  refine { db.wf with subnets_pkey := ?_, subnets_node_fkey := ?_, subnets_cidr := ?_ }
  · exact db.wf.subnets_pkey.append (List.nodup_singleton _) (by simpa using hnew)
  · intro x hx
    rcases List.mem_append.mp hx with hx | hx
    · exact db.wf.subnets_node_fkey x hx
    · rw [List.mem_singleton.mp hx]
      exact hnode
  · intro x hx
    rcases List.mem_append.mp hx with hx | hx
    · exact db.wf.subnets_cidr x hx
    · rw [List.mem_singleton.mp hx]
      exact hcidr

/-- **Acceptance.** A known node's announcement of one subnet goes through when the token drawn is new, and any
    row with the key can be the one it is taken for. -/
theorem accepts_announcement {r : NodeRow} {newToken pubkey : String} {lan : Prefix} (node : Uuid)
    {name hostname lanIface : String} (hmem : r ∈ db.nodes) (hkey : r.keys.pub = pubkey)
    (htexts : ∀ s ∈ [pubkey, hostname, lanIface], isText s = true)
    (hnew : ∀ n ∈ db.nodes, n.enrollToken ≠ some newToken) (hcidr : IsCidr lan) :
    ∃ pick db', run apply (enrollNode node newToken name hostname lanIface pubkey [lan] pick) db =
      .ok ((derefOr r.enrollToken newToken, reannounced r.status), db') ∧
        db'.nodes = (db.editNode r.id (announce (derefOr r.enrollToken newToken) hostname lanIface)).nodes := by
  obtain ⟨pick, hr⟩ := exists_anyRow (List.mem_filter.mpr ⟨hmem, decide_eq_true hkey⟩ :
    r ∈ db.nodes.filter fun n => n.keys.pub = pubkey)
  have hupdate := constraints_announce hostname lanIface hmem hnew
  let db₁ : Db := ⟨_, hupdate⟩
  obtain ⟨db₂, hdrop⟩ : ∃ db₂, applyAll apply
      ((db₁.subnets.filter fun s => s.nodeId = r.id).map .deleteSubnet) db₁ = .ok db₂ := applyAll_deleteSubnets _
  have heval := eval_of_applyAll hdrop
  rw [foldl_deleteSubnet, diff_filter] at heval
  -- the old subnets are gone, so the new one is not a duplicate
  have hinsert : (Write.eval db₂.toTables (.insertSubnet ⟨r.id, lan⟩)).Constraints := by
    refine constraints_insertSubnet ?_ ?_ hcidr
    · rw [← heval]
      exact fun h => absurd (List.mem_filter.mp h).2 (by simp)
    · rw [← heval]
      have hids : db₁.nodes.map NodeRow.id = db.nodes.map NodeRow.id := map_editNode (t := db.toTables) fun _ => rfl
      exact hids ▸ List.mem_map_of_mem hmem
  have hnodes : db₂.nodes = db₁.nodes := by rw [← heval]
  refine ⟨pick, ⟨_, hinsert⟩, ?_, hnodes⟩
  have hreplace : run apply (replaceSubnets r.id [lan]) db₁ = .ok ((), ⟨_, hinsert⟩) := by
    rw [replaceSubnets, if_neg (by simp), run, hdrop]
    exact accepts_write hinsert
  rw [enrollNode, run_checkText_bind, if_pos (by simp [htexts])]
  simp only [run_bind, run_lockNode, hr]
  rw [reenrollNode, run_checkText_bind, if_pos (by simp [htexts])]
  simp only [run_bind, accepts_write hupdate]
  rw [hreplace]
  rfl

end Store
end BeautyAwg
