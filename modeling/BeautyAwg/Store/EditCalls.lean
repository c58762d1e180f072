import BeautyAwg.Store.EnrollCalls

/-!
# `Store.EditCalls`: when an edit of a row is accepted

The calls that change one field of a node or a client, made alone: what they leave behind, and what they are
refused for. Only a node's name is unique among nodes, only a colour is checked, and no text may have a NUL
character; everything else goes through for a row that is there.

## Contents
- **Nodes.** `run_editNode`, `run_renameNode`, `run_renameNode_taken`, `run_checked`.
- **Domains.** `run_setNodeDomains`.
- **Clients.** `run_editClient`.
-/

namespace BeautyAwg
namespace Store

open Netip Txn

variable {t : Tables} {db : Db} {id : Uuid}

/-! ## Nodes -/

/-- Another node has the name. -/
def Tables.nameTaken (t : Tables) (id : Uuid) (name : String) : Bool :=
  t.nodes.any fun n => n.id ≠ id ∧ n.name = name

/-- An edit of a field without constraints goes through. -/
theorem run_editNode (db : Db) (id : Uuid) (f : NodeRow → NodeRow) (hf : KeepsColumns f)
    (htoken : ∀ n, (f n).enrollToken = n.enrollToken) :
    ∃ db' : Db, run apply (Txn.write (.updateNode id f) : Tx Unit) db = .ok ((), db') ∧
      db'.toTables = db.editNode id f := by
  have hkept : (Write.eval db.toTables (.updateNode id f)).Constraints := by
    refine constraints_editNode db.wf hf ?_
    rw [filterMap_editNode htoken]
    exact db.wf.nodes_enroll_token_key
  exact ⟨⟨_, hkept⟩, accepts_write hkept, rfl⟩

theorem nodup_names_editNode (wf : t.Constraints) {name : String} (hfree : t.nameTaken id name = false) :
    ((t.editNode id fun n => { n with name := name }).nodes.map NodeRow.name).Nodup := by
  have hfree : ∀ n ∈ t.nodes, n.id ≠ id → n.name ≠ name := by
    intro n hn hne hname
    exact List.any_eq_false.mp hfree n hn (decide_eq_true ⟨hne, hname⟩)
  have hids : t.nodes.Pairwise fun n m => n.id ≠ m.id := List.pairwise_map.mp wf.nodes_pkey
  have hnames : t.nodes.Pairwise fun n m => n.name ≠ m.name := List.pairwise_map.mp wf.nodes_name_key
  refine List.pairwise_map.mpr (List.pairwise_map.mpr ?_)
  refine (hids.and hnames).imp_of_mem ?_
  rintro n m hn hm ⟨hne, hold⟩
  by_cases h : n.id = id
  · have h' : m.id ≠ id := fun he => hne (h.trans he.symm)
    rw [if_pos h, if_neg h']
    exact (hfree m hm h').symm
  · rw [if_neg h]
    by_cases h' : m.id = id
    · rw [if_pos h']
      exact hfree n hn h
    · rw [if_neg h']
      exact hold

/-- An edit that keeps the other keys can break the constraint on names only. -/
theorem constraints_editName {f : NodeRow → NodeRow} (wf : t.Constraints) (hid : ∀ n, (f n).id = n.id)
    (haddress : ∀ n, (f n).address = n.address) (htoken : ∀ n, (f n).enrollToken = n.enrollToken)
    (hhub : ∀ n, (f n).isHub = n.isHub) (hnames : ((t.editNode id f).nodes.map NodeRow.name).Nodup) :
    (t.editNode id f).Constraints := by
  obtain ⟨hpkey, -, hrest⟩ := (Tables.constraints_iff t).mp wf
  rw [Tables.constraints_iff, map_editNode hid, filterMap_editNode haddress, filterMap_editNode htoken,
    hubs_editNode hhub]
  exact ⟨hpkey, hnames, hrest⟩

theorem run_renameNode {name : String} (htext : isText name = true) (hfree : db.nameTaken id name = false) :
    ∃ db' : Db, run apply (renameNode id name) db = .ok ((), db') ∧
      db'.toTables = db.editNode id fun n => { n with name := name } := by
  have hkept : (Write.eval db.toTables (.updateNode id fun n => { n with name := name })).Constraints :=
    constraints_editName db.wf (fun _ => rfl) (fun _ => rfl) (fun _ => rfl) (fun _ => rfl)
      (nodup_names_editNode db.wf hfree)
  refine ⟨⟨_, hkept⟩, ?_, rfl⟩
  rw [renameNode, run_checkText_bind, if_pos (by simp [htext])]
  exact accepts_write hkept

theorem apply_refused {w : Write} (h : ¬ (w.eval db.toTables).Constraints) :
    run apply (Txn.write w : Tx Unit) db = .error .constraint := by
  have happly : apply w db = .error .constraint := dif_neg h
  rw [run_write, happly]
  rfl

/-- A name that another node has is refused. -/
theorem run_renameNode_taken {name : String} (hid : id ∈ db.nodes.map NodeRow.id)
    (htaken : db.nameTaken id name = true) : run apply (renameNode id name) db = .error .constraint := by
  rw [renameNode, run_checkText_bind, ite_eq_right_iff]
  refine fun _ => apply_refused fun hkept => ?_
  obtain ⟨n, hn, rfl⟩ := List.mem_map.mp hid
  obtain ⟨m, hm, hother⟩ := List.any_eq_true.mp htaken
  obtain ⟨hne, hname⟩ := of_decide_eq_true hother
  -- both rows are in the new table, under one name
  let f : NodeRow → NodeRow := fun r => if r.id = n.id then { r with name := name } else r
  have hn' : f n ∈ (db.editNode n.id fun r => { r with name := name }).nodes := List.mem_map_of_mem hn
  have hm' : f m ∈ (db.editNode n.id fun r => { r with name := name }).nodes := List.mem_map_of_mem hm
  have hsame : (f n).name = (f m).name := by
    simp only [f, if_neg hne, hname]
    simp
  have heq := congrArg NodeRow.id (List.inj_on_of_nodup_map hkept.nodes_name_key hn' hm' hsame)
  simp only [f, if_neg hne] at heq
  simp only [if_true] at heq
  exact hne heq.symm

/-- The colour is refused. -/
def badColor (color : String) : Bool := color ≠ "" ∧ ¬ isHexColor color

/-- A write behind the check of a colour. -/
theorem run_checked (db : Db) (color : String) (w : Write) :
    run apply (checkColor color >>= fun _ => Txn.write w : Tx Unit) db =
      if badColor color then .error (.text "color must be empty or #rrggbb")
      else run apply (Txn.write w : Tx Unit) db := by
  unfold checkColor badColor
  rw [run_bind]
  by_cases hbad : color ≠ "" ∧ ¬ isHexColor color
  · rw [if_pos hbad, if_pos (decide_eq_true hbad)]
    rfl
  · rw [if_neg hbad, if_neg (by simpa using hbad)]
    rfl

/-! ## Domains -/

theorem constraints_deleteDomain {d : DomainRow} : (Write.eval db.toTables (.deleteDomain d)).Constraints :=
  { db.wf with
    domains_pkey := db.wf.domains_pkey.erase d
    domains_node_fkey := fun x hx => db.wf.domains_node_fkey x (List.mem_of_mem_erase hx) }

theorem constraints_insertDomain {d : DomainRow} (hid : d.nodeId ∈ db.nodes.map NodeRow.id) :
    (Write.eval db.toTables (.insertDomain d)).Constraints := by
  show Tables.Constraints { db.toTables with domains := _ }
  split
  · exact db.wf
  · rename_i hnew
    refine { db.wf with domains_pkey := ?_, domains_node_fkey := ?_ }
    · exact db.wf.domains_pkey.append (List.nodup_singleton _) (by simpa using hnew)
    · intro x hx
      rcases List.mem_append.mp hx with hx | hx
      · exact db.wf.domains_node_fkey x hx
      · rw [List.mem_singleton.mp hx]
        exact hid

/-- The rows that are deleted are those of the node. -/
theorem applyAll_deleteDomains (db : Db) (rows : List DomainRow) :
    ∃ db', applyAll apply (rows.map .deleteDomain) db = .ok db' ∧
      db'.toTables = { db.toTables with domains := db.domains.diff rows } := by
  induction rows generalizing db with
  | nil => exact ⟨db, rfl, rfl⟩
  | cons d rows ih =>
    have hkept : (Write.eval db.toTables (.deleteDomain d)).Constraints := constraints_deleteDomain
    obtain ⟨db', h, heq⟩ := ih ⟨_, hkept⟩
    refine ⟨db', applyAll_cons_ok.mpr ⟨_, apply_ok hkept, h⟩, ?_⟩
    rw [heq, List.diff_cons]
    rfl

theorem run_insertDomains (hid : id ∈ db.nodes.map NodeRow.id) (ds : List String) :
    ∃ db' : Db, run apply (Txn.writes (ds.map fun d => .insertDomain ⟨id, d⟩) : Tx Unit) db = .ok ((), db') ∧
      { db'.toTables with domains := db.domains } = db.toTables ∧
        ∀ d, d ∈ db'.domains ↔ d ∈ db.domains ∨ d.nodeId = id ∧ d.domain ∈ ds := by
  induction ds generalizing db with
  | nil => exact ⟨db, rfl, rfl, fun d => by simp⟩
  | cons x ds ih =>
    have hkept : (Write.eval db.toTables (.insertDomain ⟨id, x⟩)).Constraints := constraints_insertDomain hid
    obtain ⟨db', h, hframe, hmem⟩ := @ih ⟨_, hkept⟩ hid
    refine ⟨db', ?_, ?_, fun d => ?_⟩
    · rw [List.map_cons, writes, run, applyAll_cons_ok.mpr ⟨_, apply_ok hkept, rfl⟩]
      exact h
    · exact congrArg (fun t : Tables => { t with domains := db.domains }) hframe
    · have hone : d ∈ (Write.eval db.toTables (.insertDomain ⟨id, x⟩)).domains ↔ d ∈ db.domains ∨ d = ⟨id, x⟩ := by
        simp only [Write.eval]
        split
        · rename_i hold
          exact ⟨.inl, fun h => h.elim (fun h => h) fun h => h ▸ hold⟩
        · rw [List.mem_append, List.mem_singleton]
      have hrow : d = ⟨id, x⟩ ↔ d.nodeId = id ∧ d.domain = x := by
        cases d
        simp
      rw [hmem]
      show d ∈ (Write.eval db.toTables (.insertDomain ⟨id, x⟩)).domains ∨ _ ↔ _
      rw [hone, hrow, List.mem_cons]
      tauto

/-- The node's domains are the zones of the entries, and nothing else has changed. -/
theorem run_setNodeDomains (hid : id ∈ db.nodes.map NodeRow.id) {domains : List String}
    (htext : (normalDomains domains).all isText = true) :
    ∃ db' : Db, run apply (setNodeDomains id domains) db = .ok ((), db') ∧
      { db'.toTables with domains := db.domains } = db.toTables ∧
        ∀ d, d ∈ db'.domains ↔ if d.nodeId = id then d.domain ∈ normalDomains domains else d ∈ db.domains := by
  obtain ⟨db₁, hdrop, heq⟩ :=
    applyAll_deleteDomains db (db.domains.filter fun d => d.nodeId = id)
  rw [diff_filter] at heq
  have hid₁ : id ∈ db₁.nodes.map NodeRow.id := by
    rw [heq]
    exact hid
  obtain ⟨db', hinsert, hframe, hmem⟩ := run_insertDomains hid₁ (normalDomains domains)
  refine ⟨db', ?_, ?_, fun d => ?_⟩
  · rw [setNodeDomains, run, hdrop]
    dsimp only
    rw [run_checkText_bind, if_pos htext]
    exact hinsert
  · have hback := congrArg (fun t : Tables => { t with domains := db.domains }) hframe
    rw [heq] at hback
    exact hback
  · rw [hmem, heq]
    simp only [List.mem_filter]
    by_cases hnode : d.nodeId = id
    · simp [hnode]
    · simp [hnode]

/-- A zone with a NUL character is refused. -/
theorem run_setNodeDomains_refused (db : Db) (id : Uuid) {domains : List String}
    (htext : (normalDomains domains).all isText = false) :
    run apply (setNodeDomains id domains) db = .error .constraint := by
  obtain ⟨db₁, hdrop, -⟩ := applyAll_deleteDomains db (db.domains.filter fun d => d.nodeId = id)
  rw [setNodeDomains, run, hdrop]
  dsimp only
  rw [run_checkText_bind, if_neg (by simp [htext])]

/-- The domains are stored unless one has a NUL character. -/
theorem setNodeDomains_ok_iff (hid : id ∈ db.nodes.map NodeRow.id) {domains : List String} :
    (∃ db' : Db, run apply (setNodeDomains id domains) db = .ok ((), db')) ↔
      (normalDomains domains).all isText = true := by
  cases htext : (normalDomains domains).all isText with
  | false => simp [run_setNodeDomains_refused db id htext]
  | true =>
    obtain ⟨db', hrun, -⟩ := run_setNodeDomains hid htext
    exact iff_of_true ⟨db', hrun⟩ rfl

theorem run_setNodeDomains_ok (hid : id ∈ db.nodes.map NodeRow.id) {domains : List String} {db' : Db}
    (h : run apply (setNodeDomains id domains) db = .ok ((), db')) :
    { db'.toTables with domains := db.domains } = db.toTables ∧
      ∀ d, d ∈ db'.domains ↔ if d.nodeId = id then d.domain ∈ normalDomains domains else d ∈ db.domains := by
  obtain ⟨db₁, hrun, hstored⟩ := run_setNodeDomains hid ((setNodeDomains_ok_iff hid).mp ⟨db', h⟩)
  obtain ⟨-, rfl⟩ := Prod.mk.inj (Except.ok.inj (hrun.symm.trans h))
  exact hstored

/-! ## Clients -/

/-- An edit of anything but a client's id and address goes through. -/
theorem run_editClient (db : Db) (id : Uuid) (f : ClientRow → ClientRow) (hid : ∀ c, (f c).id = c.id)
    (haddress : ∀ c, (f c).address = c.address) :
    ∃ db' : Db, run apply (Txn.write (.updateClient id f) : Tx Unit) db = .ok ((), db') ∧
      db'.toTables = db.editClient id f := by
  have hcolumn : ∀ {α : Type} {g : ClientRow → α}, (∀ c, g (f c) = g c) →
      (db.editClient id f).clients.map g = db.clients.map g := by
    intro α g hg
    show List.map g (List.map _ db.clients) = _
    rw [List.map_map]
    refine List.map_congr_left fun c _ => ?_
    show g (if c.id = id then f c else c) = g c
    split
    · exact hg c
    · rfl
  have hkept : (Write.eval db.toTables (.updateClient id f)).Constraints := by
    refine { db.wf with clients_pkey := ?_, clients_address_key := ?_, grants_client_fkey := ?_ }
    · exact (hcolumn hid).symm ▸ db.wf.clients_pkey
    · exact (hcolumn haddress).symm ▸ db.wf.clients_address_key
    · exact fun g hg => (hcolumn hid).symm ▸ db.wf.grants_client_fkey g hg
  exact ⟨⟨_, hkept⟩, accepts_write hkept, rfl⟩

end Store
end BeautyAwg
