import Mathlib.Logic.Function.Basic
import BeautyAwg.NodeAgent.Poll
import BeautyAwg.Store.Correctness.LeastPrivilege
import BeautyAwg.Store.Effect

/-!
# `Store.Correctness.Enrolment`: the enrolment gate

Announcements come from anyone with the enrolment secret, decisions from an administrator. A node gets its
configuration by its token, and the gate is that the last decision on it let it in: however often a
rejected node announces itself, only `ApproveNode` activates it.

## Contents
- **Decisions.** `decision`: the last one on each node, over the calls of a run.
- **Announcements.** What `EnrollNode` leaves alone in a row, and what it does to the subnets.
- **The gate.** `Gate`, `gate_of_effect`, `poll_config`; `shut_of_effect` for a node that is not active.
- **Runs.** `enrolment_gate`.
-/

namespace BeautyAwg
namespace Store

open Netip Awg Txn NodeAgent

/-! ## Decisions -/

/-- What an operator can decide on a node. -/
inductive Decision where
  | created
  | approved
  | rejected
  deriving DecidableEq, Repr

/-- The decision a call makes, and on which node. A deleted node has none. -/
def Op.decides : Op → Option (Uuid × Option Decision)
  | .createNode id _ _ _ _ _ => some (id, some .created)
  | .approveNode id => some (id, some .approved)
  | .rejectNode id => some (id, some .rejected)
  | .deleteNode id => some (id, none)
  | _ => none

/-- The last decision on each node, after one more call. -/
def decisionAfter (d : Uuid → Option Decision) (op : Op) : Uuid → Option Decision :=
  match op.decides with
  | some (id, v) => Function.update d id v
  | none => d

/-- The last decision on each node after these calls. -/
def decision (ops : List Op) : Uuid → Option Decision := ops.foldl decisionAfter fun _ => none

/-- The decision lets the node in. -/
def Admitted (d : Option Decision) : Prop := d = some .created ∨ d = some .approved

instance (d : Option Decision) : Decidable (Admitted d) := inferInstanceAs (Decidable (_ ∨ _))

/-- An announcement carries a public key, as `handleEnroll` requires. -/
def announces (op : Op) (_ : Db) : Bool :=
  match op with
  | .enrollNode _ _ _ _ _ pubkey _ _ => pubkey ≠ ""
  | _ => true

variable {hub : Hub} {db db' : Db} {t t' : Tables} {op : Op} {d : Uuid → Option Decision} {id : Uuid}

/-! ## Announcements -/

section Announcements

variable {newToken name hostname lanIface pubkey : String} {subnets : List Prefix} {pick : Nat}

/-- What an announcement may do to a row. -/
structure Reannounced (n n' : NodeRow) : Prop where
  id : n'.id = n.id
  name : n'.name = n.name
  address : n'.address = n.address
  keys : n'.keys = n.keys
  kept : n.status ≠ .rejected → n'.status = n.status
  rejected : n.status = .rejected → n'.status = .rejected ∨ n'.status = .pending

/-- An announcement changes the node's own columns only. -/
theorem reannounced_of_announce (token hostname lanIface : String) (n : NodeRow) :
    Reannounced n (announce token hostname lanIface n) := by
  constructor
  case kept =>
    intro h
    show reannounced n.status = n.status
    rw [reannounced, if_neg h]
  case rejected =>
    intro h
    right
    show reannounced n.status = .pending
    rw [reannounced, if_pos h]
  all_goals rfl

/-- An announcement leaves name, address, keys and a pending or active status of every row alone. -/
theorem enrollNode_rows (h : Effect (.enrollNode id newToken name hostname lanIface pubkey subnets pick) t t')
    {n : NodeRow} (hn : n ∈ t.nodes) : ∃ n' ∈ t'.nodes, Reannounced n n' := by
  have hself : Reannounced n n := ⟨rfl, rfl, rfl, rfl, fun _ => rfl, Or.inl⟩
  cases h with
  | reenrolled =>
    refine ⟨_, List.mem_map_of_mem hn, ?_⟩
    split
    · exact reannounced_of_announce _ _ _ n
    · exact hself
  | registered => exact ⟨n, List.mem_append_left _ hn, hself⟩

/-- An announcement without subnets keeps the node's; one with subnets replaces them, and no other's. -/
theorem enrollNode_subnets (h : Effect (.enrollNode id newToken name hostname lanIface pubkey subnets pick) t t')
    {r : NodeRow} (hr : anyRow pick (t.nodes.filter fun n => n.keys.pub = pubkey) = some r) :
    (subnets = [] → t'.subnets = t.subnets) ∧ (subnets ≠ [] → t'.subnetsOf r.id = subnets) ∧
      ∀ i, i ≠ r.id → t'.subnetsOf i = t.subnetsOf i := by
  cases h with
  | reenrolled hr' =>
    obtain rfl := Option.some.inj (hr.symm.trans hr')
    refine ⟨fun hnil => ?_, fun hcons => ?_, fun i hi => ?_⟩
    · show t.replacedSubnets r.id subnets = t.subnets
      rw [Tables.replacedSubnets, if_pos hnil]
    · rw [subnetsOf_replaced (t := t) rfl, if_pos ⟨rfl, hcons⟩]
    · rw [subnetsOf_replaced (t := t) rfl, if_neg fun h => hi h.1]
  | registered hr' => exact absurd (hr.symm.trans hr') (by simp)

end Announcements

/-! ## The gate -/

/-- Every active node was let in by the last decision on it, or is the hub's: that row has no public key,
    so that no announcement is taken for it and it has no token. -/
def Gate (d : Uuid → Option Decision) (t : Tables) : Prop :=
  ∀ n ∈ t.nodes, n.status = .active → (n.keys.pub = "" ∧ n.enrollToken = none) ∨ Admitted (d n.id)

/-- An edit of one row that is on no decision. -/
theorem Gate.edit {f : NodeRow → NodeRow} (h : Gate d t) (hid : ∀ n, (f n).id = n.id)
    (hf : ∀ n ∈ t.nodes, n.id = id → (f n).status = .active →
      n.status = .active ∧ (n.keys.pub = "" ∧ n.enrollToken = none → (f n).keys.pub = "" ∧ (f n).enrollToken = none)) :
    Gate d (t.editNode id f) := by
  intro n' hn' hactive
  obtain ⟨n, hn, rfl⟩ := List.mem_map.mp hn'
  split at hactive
  · rename_i he
    rw [if_pos he, hid]
    obtain ⟨hold, hsilent⟩ := hf n hn he hactive
    exact (h n hn hold).imp hsilent fun h => h
  · rename_i he
    rw [if_neg he]
    exact h n hn hactive

/-- **Step.** Every call keeps the gate. -/
theorem gate_of_effect (hok : announces op db = true) (h : Effect op t t') (wf : t.Constraints)
    (wf' : t'.Constraints) (hgate : Gate d t) : Gate (decisionAfter d op) t' := by
  cases h with
  | @createNode _ id =>
    intro n hn hactive
    show _ ∨ Admitted (Function.update d id _ n.id)
    rcases List.mem_append.mp hn with hn | hn
    · have hne : n.id ≠ id := nodup_append_ne wf'.nodes_pkey hn
      rw [Function.update_of_ne hne]
      exact hgate n hn hactive
    · obtain rfl := List.mem_singleton.mp hn
      exact Or.inr (Or.inl (Function.update_self ..))
  | @reenrolled _ _ newToken name hostname lanIface pubkey subnets pick r hr =>
    have hpub : r.keys.pub = pubkey := of_decide_eq_true (anyRow_filter hr).2
    have hne : pubkey ≠ "" := of_decide_eq_true hok
    refine Gate.edit (t := t) hgate (fun _ => rfl) fun n hn hid hactive => ?_
    -- the row has a public key, so it is not the hub's
    obtain rfl := node_eq_of_id wf hn (anyRow_filter hr).1 hid
    refine ⟨active_of_announce hactive, fun hsilent => absurd (hpub.symm.trans hsilent.1) hne⟩
  | registered =>
    intro n hn hactive
    rcases List.mem_append.mp hn with hn | hn
    · exact hgate n hn hactive
    · obtain rfl := List.mem_singleton.mp hn
      exact absurd hactive (by simp [enrolledNode])
  | @approved _ id =>
    intro n' hn' hactive
    obtain ⟨n, hn, rfl⟩ := List.mem_map.mp hn'
    show _ ∨ Admitted (Function.update d id _ _)
    split
    · rename_i he
      refine Or.inr (Or.inr ?_)
      show Function.update d id _ n.id = _
      rw [he, Function.update_self]
    · rename_i he
      rw [if_neg he] at hactive
      rw [Function.update_of_ne he]
      exact hgate n hn hactive
  | @alreadyApproved _ id =>
    intro n hn hactive
    show _ ∨ Admitted (Function.update d id _ _)
    by_cases he : n.id = id
    · rw [he, Function.update_self]
      exact Or.inr (Or.inr rfl)
    · rw [Function.update_of_ne he]
      exact hgate n hn hactive
  | @rejected _ id =>
    intro n' hn' hactive
    obtain ⟨n, hn, rfl⟩ := List.mem_map.mp hn'
    show _ ∨ Admitted (Function.update d id _ _)
    split at hactive
    · exact absurd hactive (by simp [reject])
    · rename_i he
      rw [if_neg he, Function.update_of_ne he]
      exact hgate n hn hactive
  | @deletedNode _ id =>
    intro n hn hactive
    obtain ⟨hn, hne⟩ := List.mem_filter.mp hn
    show _ ∨ Admitted (Function.update d id _ _)
    rw [Function.update_of_ne (of_decide_eq_true hne)]
    exact hgate n hn hactive
  | hubCreated =>
    intro n hn hactive
    rcases List.mem_append.mp hn with hn | hn
    · exact hgate n hn hactive
    · obtain rfl := List.mem_singleton.mp hn
      exact Or.inl ⟨rfl, rfl⟩
  | renamedNode | nodeDNS | nodeColor =>
    exact Gate.edit hgate (fun _ => rfl) fun n _ _ hactive => ⟨hactive, fun h => h⟩
  | _ => exact hgate

/-- After every run an active node with a key is one that its last decision let in. -/
theorem gate_of_run {secret : String} {ops : List Op}
    (h : runAll apply Op.body announces (Db.boot hub secret) ops = some db) : Gate (decision ops) db.toTables := by
  show Gate (decision ([] ++ ops)) db.toTables
  refine runAll_induction (I := fun past c => Gate (decision past) c.toTables) ?_ h ?_
  · intro past op c c' hok hrun hgate
    have hstep := gate_of_effect hok (effect_of_run hrun) c.wf c'.wf hgate
    rwa [decision, List.foldl_append]
  · exact fun n hn => absurd hn List.not_mem_nil

/-- **The gate at the panel.** Whatever the poll's queries return, a configuration is for a node that the
    last decision let in. -/
theorem poll_config {token : String} (hgate : Gate d db.toTables) {found : Except String (Uuid × NodeStatus)}
    (hfound : found = nodeByToken db.toTables token ∨ ∃ e, found = .error e)
    {exported : Except String (Hub × Node × List Prefix)} {update : Option (String × String)} {body : PollBody}
    (hbody : (handleEnrollPoll found exported update).body = .ok body) (hconf : body.config ≠ "") :
    ∃ n ∈ db.nodes, n.enrollToken = some token ∧ found = .ok (n.id, .active) ∧ Admitted (d n.id) := by
  rcases hfound with hfound | ⟨e, rfl⟩
  · unfold nodeByToken at hfound
    split at hfound
    · rename_i n hn
      have hmem := List.mem_of_find?_eq_some hn
      have htoken : n.enrollToken = some token := by simpa using List.find?_some hn
      subst hfound
      have hactive : n.status = .active := by
        by_contra hnot
        simp only [handleEnrollPoll, if_neg hnot] at hbody
        obtain rfl := Except.ok.inj hbody
        exact hconf rfl
      refine ⟨n, hmem, htoken, by rw [hactive], (hgate n hmem hactive).resolve_left fun hsilent => ?_⟩
      rw [htoken] at hsilent
      exact absurd hsilent.2 (by simp)
    · subst hfound
      exact absurd hbody (by simp [handleEnrollPoll])
  · exact absurd hbody (by simp [handleEnrollPoll])

/-- The node is there and not active. -/
def Shut (id : Uuid) (t : Tables) : Prop := ∃ n ∈ t.nodes, n.id = id ∧ n.status ≠ .active

/-- The call neither approves nor deletes the node. -/
def leavesShut (id : Uuid) (op : Op) : Bool := op ≠ .approveNode id ∧ op ≠ .deleteNode id

/-- A node stays shut through edits that do not make it active. -/
theorem Shut.edit {node : Uuid} {f : NodeRow → NodeRow} (h : Shut id t)
    (hf : ∀ n, n.id = id → n.status ≠ .active → node = id → (f n).id = n.id ∧ (f n).status ≠ .active) :
    Shut id (t.editNode node f) := by
  obtain ⟨n, hn, hid, hshut⟩ := h
  refine ⟨_, List.mem_map_of_mem hn, ?_⟩
  split
  · rename_i he
    obtain ⟨hid', hshut'⟩ := hf n hid hshut (he.symm.trans hid)
    exact ⟨hid'.trans hid, hshut'⟩
  · exact ⟨hid, hshut⟩

/-- Only an approval activates a node. -/
theorem shut_of_effect (hok : leavesShut id op = true) (h : Effect op t t') (hshut : Shut id t) : Shut id t' := by
  obtain ⟨happrove, hdelete⟩ := of_decide_eq_true hok
  cases h with
  | createNode | registered | hubCreated =>
    obtain ⟨n, hn, hid, hs⟩ := hshut
    exact ⟨n, List.mem_append_left _ hn, hid, hs⟩
  | reenrolled =>
    exact Shut.edit (t := t) hshut fun n _ hs _ => ⟨rfl, fun h => hs (active_of_announce h)⟩
  | approved => exact hshut.edit fun n _ _ he => absurd (congrArg Op.approveNode he) happrove
  | rejected => exact hshut.edit fun n _ _ _ => ⟨rfl, by simp [reject]⟩
  | @deletedNode _ node =>
    obtain ⟨n, hn, hid, hs⟩ := hshut
    have hne : n.id ≠ node := fun he => hdelete (congrArg Op.deleteNode (he.symm.trans hid))
    exact ⟨n, List.mem_filter.mpr ⟨hn, decide_eq_true hne⟩, hid, hs⟩
  | renamedNode | nodeDNS | nodeColor => exact hshut.edit fun n _ hs _ => ⟨rfl, hs⟩
  | _ => exact hshut

/-! ## Runs -/

/-- **The enrolment gate.** In every state that a run of the store's calls reaches, announcements carrying a
    public key: an active node has an address; an announcement leaves the rows and the subnets alone as
    `Reannounced` and `enrollNode_subnets` say; a poll gets a configuration only for a node that the last
    decision let in; and a node that is not active stays so until it is approved or deleted. -/
theorem enrolment_gate (hub : Hub) (secret : String) (ops : List Op) (db : Db)
    (hrun : runAll apply Op.body announces (Db.boot hub secret) ops = some db) :
    (∀ n ∈ db.nodes, n.status = .active → n.address ≠ none) ∧
    (∀ (id : Uuid) (newToken name hostname lanIface pubkey : String) (subnets : List Prefix) (pick : Nat) (db' : Db),
      pubkey ≠ "" →
      run apply (Op.enrollNode id newToken name hostname lanIface pubkey subnets pick).body db = .ok ((), db') →
      (∀ n ∈ db.nodes, ∃ n' ∈ db'.nodes, Reannounced n n') ∧
      ∀ r, anyRow pick (db.nodes.filter fun n => n.keys.pub = pubkey) = some r →
        (subnets = [] → db'.subnets = db.subnets) ∧ (subnets ≠ [] → db'.subnetsOf r.id = subnets) ∧
          ∀ i, i ≠ r.id → db'.subnetsOf i = db.subnetsOf i) ∧
    (∀ (token : String) (found : Except String (Uuid × NodeStatus))
      (exported : Except String (Hub × Node × List Prefix)) (update : Option (String × String)) (body : PollBody),
      (found = nodeByToken db.toTables token ∨ ∃ e, found = .error e) →
      (handleEnrollPoll found exported update).body = .ok body → body.config ≠ "" →
      ∃ n ∈ db.nodes, n.enrollToken = some token ∧ found = .ok (n.id, .active) ∧ Admitted (decision ops n.id)) ∧
    ∀ n ∈ db.nodes, n.status ≠ .active → ∀ db',
      Calls apply Op.body (fun op c => announces op c = true ∧ leavesShut n.id op = true) db db' →
      ∃ n' ∈ db'.nodes, n'.id = n.id ∧ n'.status ≠ .active := by
  refine ⟨activeHasAddr_of_calls (calls_of_runAll hrun),
    fun id newToken name hostname lanIface pubkey subnets pick db' _ h => ?_,
    fun token found exported update body hfound hbody hconf => poll_config (gate_of_run hrun) hfound hbody hconf,
    fun n hn hs db' hcalls => ?_⟩
  · have heff := effect_of_run h
    exact ⟨fun n hn => enrollNode_rows heff hn, fun r hr => enrollNode_subnets heff hr⟩
  · exact effect_induction (I := Shut n.id) (fun _ _ _ hok h _ => shut_of_effect hok.2 h) hcalls ⟨n, hn, rfl, hs⟩

/-- A node that enrols, is rejected, announces itself again and is approved. -/
theorem enrolment_gate_reapproved : ∃ db,
    runAll apply Op.body announces (Db.boot demoHub "") [.ensureHubNode 1,
      .enrollNode 2 "token" "home" "home" "eth0" "pub" [⟨.ofBytes 192 168 1 0, 24⟩] 0, .rejectNode 2,
      .enrollNode 3 "other" "home" "home" "eth0" "pub" [] 0, .approveNode 2] = some db ∧
    ∀ n ∈ db.nodes, n.status = .active → n.address ≠ none := by
  have hrun : (runAll apply Op.body announces (Db.boot demoHub "") [.ensureHubNode 1,
      .enrollNode 2 "token" "home" "home" "eth0" "pub" [⟨.ofBytes 192 168 1 0, 24⟩] 0, .rejectNode 2,
      .enrollNode 3 "other" "home" "home" "eth0" "pub" [] 0, .approveNode 2]).isSome = true := by
    decide +kernel
  obtain ⟨db, hdb⟩ := Option.isSome_iff_exists.mp hrun
  exact ⟨db, hdb, (enrolment_gate demoHub "" _ db hdb).1⟩

end Store
end BeautyAwg
