import BeautyAwg.Api.Patch
import BeautyAwg.Store.EditCalls

/-!
# `Api.Correctness.Patch`: what a PATCH leaves behind

Each field of a PATCH is a store call of its own, so a request whose second field is refused has stored its
first. `refused_patch_iff` says when that shows: unless each field before the refused one had its value already.
A request that is answered 204 does what it says, with one exception: a client's `enabled` and `dns` are stored
only together (`accepted_patch`).

## Contents
- **Refusals.** `refusal`, `patch_ok`.
- **Nodes.** `NodeView`, `setNode`, `HasNode`, `NodeAt`; `storeCall_node`, `patchNode_result`.
- **Clients.** `setClient`, `HasClient`, `ClientAt`; `storeCall_client`, `patchClient_result`.
- **A refused request.** `refused_patch_iff`; `renamed_by_refused_patch`.
- **An accepted request.** `accepted_patch`; `enabled_ignored`.
-/

namespace BeautyAwg
namespace Api

open Awg Store Txn Updates

variable {fault : Op → Option StoreErr} {reconcile : Db → Option String} {db s s' : Db} {id : Uuid}

/-! ## Refusals -/

/-- The texts a field is stored as. A colour is checked before it comes to that. -/
def fieldTexts : Op → List String
  | .renameNode _ name | .renameClient _ name => [name]
  | .setNodeDNS _ dns | .updateClient _ _ dns => [dns]
  | .setNodeDomains _ domains => normalDomains domains
  | _ => []

/-- Why a store call of a PATCH is refused: a failure of its own, a text with a NUL character, a name that
    another node has, a text that is no colour. -/
def refusal (fault : Op → Option StoreErr) (t : Tables) (op : Op) : Option StoreErr :=
  (fault op).or
    (if (fieldTexts op).all isText then
      match op with
      | .renameNode id name => if t.nameTaken id name then some .constraint else none
      | .setNodeColor _ color | .setClientColor _ color =>
        if badColor color then some (.text "color must be empty or #rrggbb") else none
      | _ => none
    else some .constraint)

/-- A field whose text has a NUL character is refused. -/
theorem run_badText (db : Db) {op : Op} (h : (fieldTexts op).all isText = false) :
    run apply op.body db = .error .constraint := by
  have hrefused : ∀ (texts : List String) (t : Tx Unit), texts.all isText = false →
      run apply (checkText texts >>= fun _ => t) db = .error .constraint := by
    intro texts t htexts
    rw [run_checkText_bind, if_neg (by simp [htexts])]
  cases op with
  | renameNode | setNodeDNS | updateClient | renameClient => exact hrefused _ _ h
  | setNodeDomains id domains => exact run_setNodeDomains_refused db id h
  | _ => exact absurd h (by simp [fieldTexts])

/-- Texts that pass the check are stored as without it. -/
theorem run_goodText {texts : List String} {t : Tx Unit} (h : texts.all isText = true) :
    run apply (checkText texts >>= fun _ => t) db = run apply t db := by
  rw [run_checkText_bind, if_pos h]

/-- A store call with a fault is refused with it. -/
theorem storeCall_fault {op : Op} {e : StoreErr} (h : fault op = some e) : storeCall fault op s = .error e := by
  rw [storeCall, h]

theorem storeCall_run {op : Op} (h : fault op = none) {r : Except StoreErr (Unit × Db)}
    (hrun : run apply op.body s = r) : storeCall fault op s = r.map Prod.snd := by
  rw [storeCall, h, hrun]

/-- How the store calls end decides the answer. -/
theorem patch_ok (reconcile : Db → Option String) {ops : List Op} {r : Option (Op × StoreErr)}
    (h : runUntil (storeCall fault) ops db = (s, r)) :
    (patch fault reconcile (.ok ops) db).1 = s ∧
      ((patch fault reconcile (.ok ops) db).2.isRefusal = true ↔ r ≠ none) ∧
        ((patch fault reconcile (.ok ops) db).2 = .noContent → r = none) := by
  unfold patch
  dsimp only
  rw [h]
  cases r with
  | some x => exact ⟨rfl, by simp [PatchReply.isRefusal], fun he => absurd he (by simp)⟩
  | none =>
    dsimp only
    cases reconcile s with
    | some e => exact ⟨rfl, by simp [PatchReply.isRefusal], fun _ => rfl⟩
    | none => exact ⟨rfl, by simp [PatchReply.isRefusal], fun _ => rfl⟩

/-! ## Nodes -/

/-- The fields of a request as store calls, in the order of the handler. -/
def UpdateNodeReq.fields (id : Uuid) (req : UpdateNodeReq) : List Op :=
  req.name.toList.map (.renameNode id) ++ req.dns.toList.map (.setNodeDNS id) ++
    req.domains.toList.map (.setNodeDomains id) ++ req.color.toList.map (.setNodeColor id)

/-- A node's row and its domains. -/
structure NodeView where
  row : NodeRow
  domains : Set String

/-- What a PATCH can show of a node: its row, and its domains as a set. -/
def NodeView.of (t : Tables) (n : NodeRow) : NodeView := ⟨n, {d | ⟨n.id, d⟩ ∈ t.domains}⟩

/-- What a field sets. -/
def setNode : Op → NodeView → NodeView
  | .renameNode _ name, v => { v with row := { v.row with name := name } }
  | .setNodeDNS _ dns, v => { v with row := { v.row with dns := dns } }
  | .setNodeDomains _ domains, v => { v with domains := {d | d ∈ normalDomains domains} }
  | .setNodeColor _ color, v => { v with row := { v.row with color := color } }
  | _, v => v

/-- The field has its value already. -/
def HasNode : Op → NodeView → Prop
  | .renameNode _ name, v => v.row.name = name
  | .setNodeDNS _ dns, v => v.row.dns = dns
  | .setNodeDomains _ domains, v => v.domains = {d | d ∈ normalDomains domains}
  | .setNodeColor _ color, v => v.row.color = color
  | _, _ => True

theorem laws_node : Laws setNode HasNode where
  has_set op v := by cases op <;> first | rfl | trivial
  set_has op v h := by
    cases op with
    | renameNode id name => cases h; rfl
    | setNodeDNS id dns => cases h; rfl
    | setNodeDomains id domains =>
      show NodeView.mk v.row {d | d ∈ normalDomains domains} = v
      rw [← show v.domains = _ from h]
    | setNodeColor id color => cases h; rfl
    | _ => rfl

/-- Each field of a request is of another part. -/
theorem apart_nodeFields (id : Uuid) (req : UpdateNodeReq) :
    (req.fields id).Pairwise (Apart setNode HasNode) := by
  obtain ⟨dns, domains, name, color⟩ := req
  unfold UpdateNodeReq.fields
  simp only [List.pairwise_append, List.mem_append, List.mem_map, Option.mem_toList]
  refine ⟨⟨⟨?_, ?_, ?_⟩, ?_, ?_⟩, ?_, ?_⟩
  · cases name <;> simp
  · cases dns <;> simp
  · rintro _ ⟨_, -, rfl⟩ _ ⟨_, -, rfl⟩ v
    rfl
  · cases domains <;> simp
  · rintro _ (⟨_, -, rfl⟩ | ⟨_, -, rfl⟩) _ ⟨_, -, rfl⟩ v <;> rfl
  · cases color <;> simp
  · rintro _ ((⟨_, -, rfl⟩ | ⟨_, -, rfl⟩) | ⟨_, -, rfl⟩) _ ⟨_, -, rfl⟩ v <;> rfl

/-- The second database is the first with the node's row and domains set to the view. -/
structure NodeAt (db : Db) (id : Uuid) (v : NodeView) (s : Db) : Prop where
  own : v.row.id = id
  nodes : s.nodes = db.nodes.map fun r => if r.id = id then v.row else r
  domains : ∀ d, d ∈ s.domains ↔ if d.nodeId = id then d.domain ∈ v.domains else d ∈ db.domains
  others : { s.toTables with nodes := db.nodes, domains := db.domains } = db.toTables

section NodeAt

variable {v : NodeView} {n : NodeRow}

theorem nodeAt_of (hn : n ∈ db.nodes) : NodeAt db n.id (.of db.toTables n) db where
  own := rfl
  nodes := by
    refine ((List.map_congr_left fun r hr => ?_).trans (List.map_id _)).symm
    split
    · rename_i hid
      exact (node_eq_of_id db.wf hr hn hid).symm
    · rfl
  domains d := by
    split
    · rename_i hid
      show d ∈ db.domains ↔ (⟨n.id, d.domain⟩ : DomainRow) ∈ db.domains
      rw [← hid]
    · rfl
  others := rfl

theorem NodeAt.stored (h : NodeAt db id v s) (hid : id ∈ db.nodes.map NodeRow.id) : id ∈ s.nodes.map NodeRow.id := by
  obtain ⟨n, hn, hnid⟩ := List.mem_map.mp hid
  rw [h.nodes]
  exact List.mem_map.mpr ⟨v.row, List.mem_map.mpr ⟨n, hn, if_pos hnid⟩, h.own⟩

/-- The names of the other nodes are those they had. -/
theorem NodeAt.nameTaken (h : NodeAt db id v s) (name : String) : s.nameTaken id name = db.nameTaken id name := by
  unfold Tables.nameTaken
  rw [h.nodes, List.any_map]
  refine congrArg (List.any db.nodes) (funext fun r => ?_)
  by_cases hr : r.id = id
  · simp [hr, h.own]
  · simp [hr]

/-- An edit of the row shows in the view of it. -/
theorem NodeAt.edit (h : NodeAt db id v s) {f : NodeRow → NodeRow} (hf : (f v.row).id = v.row.id)
    (hs : s'.toTables = s.editNode id f) : NodeAt db id ⟨f v.row, v.domains⟩ s' where
  own := hf.trans h.own
  nodes := by
    rw [hs]
    show List.map _ s.nodes = _
    rw [h.nodes, List.map_map]
    refine List.map_congr_left fun r _ => ?_
    rw [Function.comp_apply]
    by_cases hr : r.id = id
    · rw [if_pos hr, if_pos h.own, if_pos hr]
    · rw [if_neg hr, if_neg hr, if_neg hr]
  domains := by
    rw [hs]
    exact h.domains
  others := by
    rw [hs]
    exact h.others

/-- **A store call of a PATCH.** It is refused for the reason given, or it sets its field. -/
theorem storeCall_node {req : UpdateNodeReq} {op : Op} (hop : op ∈ req.fields id)
    (hid : id ∈ db.nodes.map NodeRow.id) (h : NodeAt db id v s) :
    Settles (storeCall fault) (refusal fault db.toTables) setNode (NodeAt db id) op v s := by
  unfold Settles refusal
  cases hfault : fault op with
  | some e => exact storeCall_fault hfault
  | none =>
    rw [Option.none_or]
    cases htext : (fieldTexts op).all isText with
    | false =>
      rw [if_neg Bool.false_ne_true]
      exact storeCall_run hfault (run_badText s htext)
    | true =>
      rw [if_pos rfl]
      simp only [UpdateNodeReq.fields, List.mem_append, List.mem_map] at hop
      -- a name is refused if another node has it, a colour if it is none, the server and the domains never
      rcases hop with ((⟨name, -, rfl⟩ | ⟨dns, -, rfl⟩) | ⟨domains, -, rfl⟩) | ⟨color, -, rfl⟩
      · dsimp only
        cases htaken : db.nameTaken id name with
        | true =>
          rw [if_pos rfl]
          exact storeCall_run hfault (run_renameNode_taken (h.stored hid) (by rw [h.nameTaken, htaken]))
        | false =>
          rw [if_neg Bool.false_ne_true]
          have hfree : s.nameTaken id name = false := by rw [h.nameTaken, htaken]
          obtain ⟨s', hrun, hs⟩ := run_renameNode (by simpa [fieldTexts] using htext) hfree
          exact ⟨s', storeCall_run hfault hrun, h.edit rfl hs⟩
      · obtain ⟨s', hrun, hs⟩ := run_editNode s id (fun n => { n with dns := dns })
          ⟨fun _ => rfl, fun _ => rfl, fun _ => rfl, fun _ => rfl⟩ fun _ => rfl
        exact ⟨s', storeCall_run hfault ((run_goodText htext).trans hrun), h.edit rfl hs⟩
      · obtain ⟨s', hrun, hframe, hmem⟩ := run_setNodeDomains (h.stored hid) htext
        have hnodes := congrArg Tables.nodes hframe
        refine ⟨s', storeCall_run hfault hrun, h.own, hnodes.trans h.nodes, fun d => ?_, ?_⟩
        · rw [hmem]
          split
          · rfl
          · rename_i hother
            rw [h.domains, if_neg hother]
        · rw [← h.others, ← hframe]
      · have hrun := run_checked s color (.updateNode id fun n => { n with color := color })
        dsimp only
        cases hbad : badColor color with
        | true =>
          rw [hbad, if_pos rfl] at hrun
          rw [if_pos rfl]
          exact storeCall_run hfault hrun
        | false =>
          obtain ⟨s', hedit, hs⟩ := run_editNode s id (fun n => { n with color := color })
            ⟨fun _ => rfl, fun _ => rfl, fun _ => rfl, fun _ => rfl⟩ fun _ => rfl
          rw [hbad, if_neg Bool.false_ne_true, hedit] at hrun
          rw [if_neg Bool.false_ne_true]
          exact ⟨s', storeCall_run hfault hrun, h.edit rfl hs⟩

/-- What a PATCH of a node comes to. -/
theorem patchNode_result (fault : Op → Option StoreErr) (reconcile : Db → Option String)
    (hn : n ∈ db.nodes) (req : UpdateNodeReq) (hname : req.name ≠ some "") :
    ∃ s, runUntil (storeCall fault) (req.fields n.id) db =
        (s, firstRefused (refusal fault db.toTables) (req.fields n.id)) ∧
      NodeAt db n.id ((accepted (refusal fault db.toTables) (req.fields n.id)).foldl (fun v op => setNode op v)
        (.of db.toTables n)) s ∧
      patchNode fault reconcile n.id req db = patch fault reconcile (.ok (req.fields n.id)) db := by
  have hid : n.id ∈ db.nodes.map NodeRow.id := List.mem_map_of_mem hn
  have hsettles : ∀ op ∈ req.fields n.id, ∀ v s, NodeAt db n.id v s →
      Settles (storeCall fault) (refusal fault db.toTables) setNode (NodeAt db n.id) op v s :=
    fun op hop v s hs => storeCall_node hop hid hs
  obtain ⟨s, hrun, hat⟩ := runUntil_spec hsettles (nodeAt_of hn)
  refine ⟨s, hrun, hat, ?_⟩
  rw [patchNode, handleUpdateNode, if_neg hname]
  rfl

/-- Row and domains are as before. -/
structure SameNode (db s : Db) (id : Uuid) : Prop where
  row : ∀ r, r.id = id → (r ∈ s.nodes ↔ r ∈ db.nodes)
  domains : ∀ d, (⟨id, d⟩ : DomainRow) ∈ s.domains ↔ ⟨id, d⟩ ∈ db.domains

theorem NodeAt.mem_iff (hn : n ∈ db.nodes) (h : NodeAt db n.id v s) {r : NodeRow} (hr : r.id = n.id) :
    r ∈ s.nodes ↔ r = v.row := by
  rw [h.nodes, List.mem_map]
  constructor
  · rintro ⟨m, -, rfl⟩
    split
    · rfl
    · rename_i hne
      rw [if_neg hne] at hr
      exact absurd hr hne
  · rintro rfl
    exact ⟨n, hn, if_pos rfl⟩

/-- The node is as before exactly when its view is. -/
theorem NodeAt.same_iff (hn : n ∈ db.nodes) (h : NodeAt db n.id v s) :
    SameNode db s n.id ↔ v = .of db.toTables n := by
  have hdomains : ∀ d, (⟨n.id, d⟩ : DomainRow) ∈ s.domains ↔ d ∈ v.domains := by
    intro d
    rw [h.domains]
    exact iff_of_eq (if_pos rfl)
  constructor
  · intro hsame
    have hrow : v.row = n :=
      ((nodeAt_of hn).mem_iff hn h.own).mp ((hsame.row v.row h.own).mp ((h.mem_iff hn h.own).mpr rfl))
    have hset : v.domains = {d | ⟨n.id, d⟩ ∈ db.domains} :=
      Set.ext fun d => (hdomains d).symm.trans (hsame.domains d)
    obtain ⟨row, domains⟩ := v
    exact (NodeView.mk.injEq ..).mpr ⟨hrow, hset⟩
  · rintro rfl
    refine ⟨fun r hr => ?_, hdomains⟩
    rw [h.mem_iff hn hr, (nodeAt_of hn).mem_iff hn hr]

end NodeAt

/-! ## Clients -/

/-- The fields of a request as store calls: `enabled` and `dns` are one, if both are there. -/
def UpdateClientReq.fields (id : Uuid) (req : UpdateClientReq) : List Op :=
  req.name.toList.map (.renameClient id) ++
    (match req.enabled, req.dns with
      | some enabled, some dns => [.updateClient id enabled dns]
      | _, _ => []) ++
    req.color.toList.map (.setClientColor id)

/-- What a call of a client's PATCH does to the row. -/
def setClient : Op → ClientRow → ClientRow
  | .renameClient _ name, c => { c with name := name }
  | .updateClient _ enabled dns, c => { c with enabled := enabled, dns := dns }
  | .setClientColor _ color, c => { c with color := color }
  | _, c => c

/-- The row has the values that the call sets. -/
def HasClient : Op → ClientRow → Prop
  | .renameClient _ name, c => c.name = name
  | .updateClient _ enabled dns, c => c.enabled = enabled ∧ c.dns = dns
  | .setClientColor _ color, c => c.color = color
  | _, _ => True

theorem laws_client : Laws setClient HasClient where
  has_set op c := by
    cases op with
    | updateClient id enabled dns => exact ⟨rfl, rfl⟩
    | _ => first | rfl | trivial
  set_has op c h := by
    cases op with
    | renameClient id name => cases h; rfl
    | updateClient id enabled dns =>
      obtain ⟨henabled, hdns⟩ := h
      cases henabled
      cases hdns
      rfl
    | setClientColor id color => cases h; rfl
    | _ => rfl

/-- The calls of a device's `PATCH`, by the fields that are set. -/
theorem mem_clientFields {req : UpdateClientReq} {op : Op} (h : op ∈ req.fields id) :
    (∃ name, op = .renameClient id name) ∨ (∃ enabled dns, op = .updateClient id enabled dns) ∨
      ∃ color, op = .setClientColor id color := by
  simp only [UpdateClientReq.fields, List.mem_append, List.mem_map] at h
  rcases h with (⟨name, -, rfl⟩ | h) | ⟨color, -, rfl⟩
  · exact .inl ⟨name, rfl⟩
  · split at h
    · exact .inr (.inl ⟨_, _, List.mem_singleton.mp h⟩)
    · exact absurd h List.not_mem_nil
  · exact .inr (.inr ⟨color, rfl⟩)

/-- No two of them write the same field. -/
theorem apart_clientFields (id : Uuid) (req : UpdateClientReq) :
    (req.fields id).Pairwise (Apart setClient HasClient) := by
  obtain ⟨enabled, dns, name, color⟩ := req
  unfold UpdateClientReq.fields
  simp only [List.pairwise_append, List.mem_append, List.mem_map, Option.mem_toList]
  refine ⟨⟨?_, ?_, ?_⟩, ?_, ?_⟩
  · cases name <;> simp
  · cases enabled <;> cases dns <;> simp
  · rintro _ ⟨_, -, rfl⟩ op hop v
    split at hop
    · rw [List.mem_singleton.mp hop]
      rfl
    · exact absurd hop List.not_mem_nil
  · cases color <;> simp
  · rintro op (⟨_, -, rfl⟩ | hop) _ ⟨_, -, rfl⟩ v
    · rfl
    · split at hop
      · rw [List.mem_singleton.mp hop]
        rfl
      · exact absurd hop List.not_mem_nil

/-- The second database is the first with the client's row replaced. -/
structure ClientAt (db : Db) (id : Uuid) (c : ClientRow) (s : Db) : Prop where
  own : c.id = id
  clients : s.clients = db.clients.map fun r => if r.id = id then c else r
  others : { s.toTables with clients := db.clients } = db.toTables

section ClientAt

variable {c : ClientRow} {v : ClientRow}

theorem clientAt_of (hc : c ∈ db.clients) : ClientAt db c.id c db where
  own := rfl
  clients := by
    refine ((List.map_congr_left fun r hr => ?_).trans (List.map_id _)).symm
    split
    · rename_i hid
      exact (client_eq_of_id db.wf hr hc hid).symm
    · rfl
  others := rfl

theorem ClientAt.edit (h : ClientAt db id v s) {f : ClientRow → ClientRow} (hf : (f v).id = v.id)
    (hs : s'.toTables = s.editClient id f) : ClientAt db id (f v) s' where
  own := hf.trans h.own
  clients := by
    rw [hs]
    show List.map _ s.clients = _
    rw [h.clients, List.map_map]
    refine List.map_congr_left fun r _ => ?_
    rw [Function.comp_apply]
    by_cases hr : r.id = id
    · rw [if_pos hr, if_pos h.own, if_pos hr]
    · rw [if_neg hr, if_neg hr, if_neg hr]
  others := by
    rw [hs]
    exact h.others

theorem storeCall_client {req : UpdateClientReq} {op : Op} (hop : op ∈ req.fields id) (h : ClientAt db id v s) :
    Settles (storeCall fault) (refusal fault db.toTables) setClient (ClientAt db id) op v s := by
  unfold Settles refusal
  cases hfault : fault op with
  | some e => exact storeCall_fault hfault
  | none =>
    rw [Option.none_or]
    cases htext : (fieldTexts op).all isText with
    | false =>
      rw [if_neg Bool.false_ne_true]
      exact storeCall_run hfault (run_badText s htext)
    | true =>
      rw [if_pos rfl]
      rcases mem_clientFields hop with ⟨name, rfl⟩ | ⟨enabled, dns, rfl⟩ | ⟨color, rfl⟩
      · obtain ⟨s', hrun, hs⟩ := run_editClient s id (fun c => { c with name := name }) (fun _ => rfl) fun _ => rfl
        exact ⟨s', storeCall_run hfault ((run_goodText htext).trans hrun), h.edit rfl hs⟩
      · obtain ⟨s', hrun, hs⟩ := run_editClient s id (fun c => { c with enabled := enabled, dns := dns })
          (fun _ => rfl) fun _ => rfl
        exact ⟨s', storeCall_run hfault ((run_goodText htext).trans hrun), h.edit rfl hs⟩
      · have hrun := run_checked s color (.updateClient id fun c => { c with color := color })
        dsimp only
        cases hbad : badColor color with
        | true =>
          rw [hbad, if_pos rfl] at hrun
          rw [if_pos rfl]
          exact storeCall_run hfault hrun
        | false =>
          obtain ⟨s', hedit, hs⟩ := run_editClient s id (fun c => { c with color := color })
            (fun _ => rfl) fun _ => rfl
          rw [hbad, if_neg Bool.false_ne_true, hedit] at hrun
          rw [if_neg Bool.false_ne_true]
          exact ⟨s', storeCall_run hfault hrun, h.edit rfl hs⟩

/-- What a PATCH of a client comes to. -/
theorem patchClient_result (fault : Op → Option StoreErr) (reconcile : Db → Option String)
    (hc : c ∈ db.clients) (req : UpdateClientReq) (hname : req.name ≠ some "") :
    ∃ s, runUntil (storeCall fault) (req.fields c.id) db =
        (s, firstRefused (refusal fault db.toTables) (req.fields c.id)) ∧
      ClientAt db c.id ((accepted (refusal fault db.toTables) (req.fields c.id)).foldl (fun v op => setClient op v)
        c) s ∧
      patchClient fault reconcile c.id req db = patch fault reconcile (.ok (req.fields c.id)) db := by
  have hsettles : ∀ op ∈ req.fields c.id, ∀ v s, ClientAt db c.id v s →
      Settles (storeCall fault) (refusal fault db.toTables) setClient (ClientAt db c.id) op v s :=
    fun op hop v s hs => storeCall_client hop hs
  obtain ⟨s, hrun, hat⟩ := runUntil_spec hsettles (clientAt_of hc)
  refine ⟨s, hrun, hat, ?_⟩
  rw [patchClient, handleUpdateClient, if_neg hname]
  rfl

/-- The row is as before. -/
def SameClient (db s : Db) (id : Uuid) : Prop := ∀ r, r.id = id → (r ∈ s.clients ↔ r ∈ db.clients)

theorem ClientAt.mem_iff (hc : c ∈ db.clients) (h : ClientAt db c.id v s) {r : ClientRow} (hr : r.id = c.id) :
    r ∈ s.clients ↔ r = v := by
  rw [h.clients, List.mem_map]
  constructor
  · rintro ⟨m, -, rfl⟩
    split
    · rfl
    · rename_i hne
      rw [if_neg hne] at hr
      exact absurd hr hne
  · rintro rfl
    exact ⟨c, hc, if_pos rfl⟩

theorem ClientAt.same_iff (hc : c ∈ db.clients) (h : ClientAt db c.id v s) : SameClient db s c.id ↔ v = c := by
  constructor
  · intro hsame
    exact ((clientAt_of hc).mem_iff hc h.own).mp ((hsame v h.own).mp ((h.mem_iff hc h.own).mpr rfl))
  · rintro rfl r hr
    rw [h.mem_iff hc hr, (clientAt_of hc).mem_iff hc hr]

end ClientAt

/-! ## A refused request -/

/-- The name is empty, or no field is refused, or the fields before the first that is refused have their
    values already. -/
def NodeUnspoiled (fault : Op → Option StoreErr) (t : Tables) (n : NodeRow) (req : UpdateNodeReq) : Prop :=
  req.name = some "" ∨ firstRefused (refusal fault t) (req.fields n.id) = none ∨
    ∀ op ∈ accepted (refusal fault t) (req.fields n.id), HasNode op (.of t n)

/-- The same for a client's fields. -/
def ClientUnspoiled (fault : Op → Option StoreErr) (t : Tables) (c : ClientRow) (req : UpdateClientReq) : Prop :=
  req.name = some "" ∨ firstRefused (refusal fault t) (req.fields c.id) = none ∨
    ∀ op ∈ accepted (refusal fault t) (req.fields c.id), HasClient op c

/-- A refused `PATCH` leaves the node as it was exactly under the condition above. -/
theorem refused_node_iff {n : NodeRow} (hn : n ∈ db.nodes) (req : UpdateNodeReq) :
    ((patchNode fault reconcile n.id req db).2.isRefusal = true →
      SameNode db (patchNode fault reconcile n.id req db).1 n.id) ↔ NodeUnspoiled fault db.toTables n req := by
  unfold NodeUnspoiled
  by_cases hname : req.name = some ""
  · have hinvalid : patchNode fault reconcile n.id req db = (db, .invalid (badRequest "name required")) := by
      rw [patchNode, handleUpdateNode, if_pos hname]
      rfl
    rw [hinvalid]
    simp only [hname, true_or, iff_true]
    exact fun _ => ⟨fun _ _ => Iff.rfl, fun _ => Iff.rfl⟩
  · obtain ⟨s, hrun, hat, heq⟩ := patchNode_result fault reconcile hn req hname
    obtain ⟨hdb, hrefusal, -⟩ := patch_ok reconcile hrun
    rw [heq, hdb, hrefusal, hat.same_iff hn, foldl_eq_iff laws_node (accepted_pairwise (apart_nodeFields _ _)),
      or_iff_right hname, or_iff_not_imp_left]

/-- The same for a device. -/
theorem refused_client_iff {c : ClientRow} (hc : c ∈ db.clients) (req : UpdateClientReq) :
    ((patchClient fault reconcile c.id req db).2.isRefusal = true →
      SameClient db (patchClient fault reconcile c.id req db).1 c.id) ↔ ClientUnspoiled fault db.toTables c req := by
  unfold ClientUnspoiled
  by_cases hname : req.name = some ""
  · have hinvalid : patchClient fault reconcile c.id req db = (db, .invalid (badRequest "name required")) := by
      rw [patchClient, handleUpdateClient, if_pos hname]
      rfl
    rw [hinvalid]
    simp only [hname, true_or, iff_true]
    exact fun _ _ _ => Iff.rfl
  · obtain ⟨s, hrun, hat, heq⟩ := patchClient_result fault reconcile hc req hname
    obtain ⟨hdb, hrefusal, -⟩ := patch_ok reconcile hrun
    rw [heq, hdb, hrefusal, hat.same_iff hc, foldl_eq_iff laws_client (accepted_pairwise (apart_clientFields _ _)),
      or_iff_right hname, or_iff_not_imp_left]

/-- **A refused PATCH.** It has changed nothing just when each field before the refused one had its value. -/
theorem refused_patch_iff (fault : Op → Option StoreErr) (reconcile : Db → Option String) (db : Db) :
    (∀ n ∈ db.nodes, ∀ req, ((patchNode fault reconcile n.id req db).2.isRefusal = true →
      SameNode db (patchNode fault reconcile n.id req db).1 n.id) ↔ NodeUnspoiled fault db.toTables n req) ∧
    ∀ c ∈ db.clients, ∀ req, ((patchClient fault reconcile c.id req db).2.isRefusal = true →
      SameClient db (patchClient fault reconcile c.id req db).1 c.id) ↔ ClientUnspoiled fault db.toTables c req :=
  ⟨fun _ hn req => refused_node_iff hn req, fun _ hc req => refused_client_iff hc req⟩

/-- A database with one node and one device. -/
def demoDb : Db where
  toTables :=
    { hub := demoHub
      enrollSecret := ""
      nodes := [⟨1, "office", some (.ofBytes 10 8 0 2), "eth0", ⟨"priv", "pub"⟩, "", .active, none, "", false, "", ""⟩]
      subnets := []
      domains := []
      clients := [⟨2, "laptop", .ofBytes 10 8 0 3, ⟨"priv2", "pub2"⟩, "", "", true, ""⟩]
      grants := []
      grantRules := []
      links := [] }
  wf := by decide

/-- No call fails for a reason of its own. -/
def noFault : Op → Option StoreErr := fun _ => none

/-- A colour alone that is refused changes nothing. -/
theorem refused_color : ∃ n ∈ demoDb.nodes,
    (patchNode noFault (fun _ => none) n.id ⟨none, none, none, some "red"⟩ demoDb).2.isRefusal = true ∧
      SameNode demoDb (patchNode noFault (fun _ => none) n.id ⟨none, none, none, some "red"⟩ demoDb).1 n.id := by
  refine ⟨_, List.mem_cons_self, by decide, ?_⟩
  refine ((refused_patch_iff noFault (fun _ => none) demoDb).1 _ List.mem_cons_self _).mpr (.inr (.inr ?_)) (by decide)
  have hnone : accepted (refusal noFault demoDb.toTables) (UpdateNodeReq.fields 1 ⟨none, none, none, some "red"⟩) =
      [] := by
    decide +kernel
  intro op hop
  exact absurd (hnone ▸ hop) List.not_mem_nil

/-- A name that is accepted before a colour that is refused stays. -/
theorem renamed_by_refused_patch : ∃ n ∈ demoDb.nodes,
    (patchNode noFault (fun _ => none) n.id ⟨none, none, some "lab", some "red"⟩ demoDb).2.isRefusal = true ∧
      ¬ SameNode demoDb (patchNode noFault (fun _ => none) n.id ⟨none, none, some "lab", some "red"⟩ demoDb).1
        n.id := by
  refine ⟨_, List.mem_cons_self, by decide, fun hsame => ?_⟩
  exact absurd ((hsame.row _ rfl).mpr List.mem_cons_self) (by decide)

/-! ## An accepted request -/

/-- The node as the request asks for it. -/
def UpdateNodeReq.asked (req : UpdateNodeReq) (v : NodeView) : NodeView where
  row :=
    { v.row with
      name := req.name.getD v.row.name
      dns := req.dns.getD v.row.dns
      color := req.color.getD v.row.color }
  domains :=
    match req.domains with
    | some domains => {d | d ∈ normalDomains domains}
    | none => v.domains

/-- The client as the request asks for it. -/
def UpdateClientReq.asked (req : UpdateClientReq) (c : ClientRow) : ClientRow :=
  { c with
    name := req.name.getD c.name
    enabled := req.enabled.getD c.enabled
    dns := req.dns.getD c.dns
    color := req.color.getD c.color }

/-- All calls of a node's `PATCH` together make the asked change. -/
theorem foldl_nodeFields (id : Uuid) (req : UpdateNodeReq) (v : NodeView) :
    (req.fields id).foldl (fun v op => setNode op v) v = req.asked v := by
  obtain ⟨dns, domains, name, color⟩ := req
  cases name <;> cases dns <;> cases domains <;> cases color <;> rfl

/-- `enabled` and `dns` are both there or both not, or the one that is there has its value already. -/
def Together (req : UpdateClientReq) (c : ClientRow) : Prop :=
  req.enabled.isSome = req.dns.isSome ∨ (∀ b ∈ req.enabled, c.enabled = b) ∧ ∀ d ∈ req.dns, c.dns = d

/-- Those of a device do when its enabled flag and its DNS come together. -/
theorem foldl_clientFields_iff (id : Uuid) (req : UpdateClientReq) (c : ClientRow) :
    (req.fields id).foldl (fun v op => setClient op v) c = req.asked c ↔ Together req c := by
  obtain ⟨enabled, dns, name, color⟩ := req
  -- the parts that are stored on their own
  have hrest : ∀ c' : ClientRow, (UpdateClientReq.fields id ⟨none, none, name, color⟩).foldl
      (fun v op => setClient op v) c' = UpdateClientReq.asked ⟨none, none, name, color⟩ c' := by
    intro c'
    cases name <;> cases color <;> rfl
  cases enabled with
  | none =>
    cases dns with
    | none => simp [hrest, Together]
    | some d =>
      show (UpdateClientReq.fields id ⟨none, none, name, color⟩).foldl _ c = _ ↔ _
      rw [hrest]
      simp [Together, UpdateClientReq.asked]
  | some b =>
    cases dns with
    | none =>
      show (UpdateClientReq.fields id ⟨none, none, name, color⟩).foldl _ c = _ ↔ _
      rw [hrest]
      simp [Together, UpdateClientReq.asked]
    | some d =>
      have hboth : (UpdateClientReq.fields id ⟨some b, some d, name, color⟩).foldl (fun v op => setClient op v) c =
          UpdateClientReq.asked ⟨some b, some d, name, color⟩ c := by
        cases name <;> cases color <;> rfl
      simp [hboth, Together]

/-- A database is the first with a client's row replaced in one way only. -/
theorem ClientAt.unique {c v w : ClientRow} (hc : c ∈ db.clients) (h : ClientAt db c.id v s)
    (h' : ClientAt db c.id w s) : v = w :=
  (h'.mem_iff hc h.own).mp ((h.mem_iff hc h.own).mpr rfl)

/-- **An accepted PATCH.** For a node it does what it asks for and nothing else; for a client it does so just
    when `enabled` and `dns` come together or the one that comes alone is no change. -/
theorem accepted_patch (fault : Op → Option StoreErr) (reconcile : Db → Option String) (db : Db) :
    (∀ n ∈ db.nodes, ∀ req, (patchNode fault reconcile n.id req db).2 = .noContent →
      NodeAt db n.id (req.asked (.of db.toTables n)) (patchNode fault reconcile n.id req db).1) ∧
    ∀ c ∈ db.clients, ∀ req, (patchClient fault reconcile c.id req db).2 = .noContent →
      (ClientAt db c.id (req.asked c) (patchClient fault reconcile c.id req db).1 ↔ Together req c) := by
  constructor
  · intro n hn req hdone
    have hname : req.name ≠ some "" := by
      intro hname
      rw [patchNode, handleUpdateNode, if_pos hname] at hdone
      exact absurd hdone (by simp [patch])
    obtain ⟨s, hrun, hat, heq⟩ := patchNode_result fault reconcile hn req hname
    obtain ⟨hdb, -, hnone⟩ := patch_ok reconcile hrun
    rw [heq] at hdone
    rw [heq, hdb]
    -- no field was refused, so all were written
    rw [accepted_eq_self (hnone hdone), foldl_nodeFields] at hat
    exact hat
  · intro c hc req hdone
    have hname : req.name ≠ some "" := by
      intro hname
      rw [patchClient, handleUpdateClient, if_pos hname] at hdone
      exact absurd hdone (by simp [patch])
    obtain ⟨s, hrun, hat, heq⟩ := patchClient_result fault reconcile hc req hname
    obtain ⟨hdb, -, hnone⟩ := patch_ok reconcile hrun
    rw [heq] at hdone
    rw [heq, hdb]
    -- here writing all of them need not be what was asked
    rw [accepted_eq_self (hnone hdone)] at hat
    rw [← foldl_clientFields_iff c.id req c]
    constructor
    · exact fun hasked => hat.unique hc hasked
    · intro hfold
      rw [hfold] at hat
      exact hat

/-- Both fields together are stored. -/
theorem disabled_with_dns : ∃ c ∈ demoDb.clients, ClientAt demoDb c.id { c with enabled := false, dns := "" }
    (patchClient noFault (fun _ => none) c.id ⟨some false, some "", none, none⟩ demoDb).1 :=
  ⟨_, List.mem_cons_self, ((accepted_patch noFault (fun _ => none) demoDb).2 _ List.mem_cons_self
    ⟨some false, some "", none, none⟩ (by decide)).mpr (.inl rfl)⟩

/-- `enabled` alone is answered 204 and the device stays enabled. -/
theorem enabled_ignored : ∃ c ∈ demoDb.clients,
    (patchClient noFault (fun _ => none) c.id ⟨some false, none, none, none⟩ demoDb).2 = .noContent ∧
      ∃ c' ∈ (patchClient noFault (fun _ => none) c.id ⟨some false, none, none, none⟩ demoDb).1.clients,
        c'.id = c.id ∧ c'.enabled = true :=
  ⟨_, List.mem_cons_self, by decide, _, by decide, rfl, rfl⟩

end Api
end BeautyAwg
