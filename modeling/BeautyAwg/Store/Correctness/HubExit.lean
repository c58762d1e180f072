import BeautyAwg.Store.Correctness.NodeExit
import BeautyAwg.Store.Effect

/-!
# `Store.Correctness.HubExit`: one internet exit for each device, the hub included

A device leaves to the internet through the node of its grant with the exit flag, or through the hub when it
has a grant of the hub's node. `setGrantExit` compares flags with flags only, and `setGrant` compares with
nothing: a device can be given both (`setGrant_second_exit`). Calls that do not mix the two keep the number of
its exits at one at most (`one_internet_exit`).
-/

namespace BeautyAwg
namespace Store

open Netip Awg Txn

/-! ## The invariant -/

namespace Tables

variable (t : Tables)

/-- The node stands for the hub. -/
def isHubNode (id : Uuid) : Bool := t.nodes.any fun n => n.id = id ∧ n.isHub

/-- The device's grants of the hub's node. -/
def hubGrantsOf (client : Uuid) : List GrantRow :=
  t.grants.filter fun g => g.clientId = client ∧ t.isHubNode g.nodeId

/-- The grant takes the device to the internet. -/
def Uses (g : GrantRow) : Prop := g.exit = true ∨ t.isHubNode g.nodeId = true

end Tables

/-- The grants that take a device to the internet are of one node, and a grant of the hub's has no flag. -/
structure OneInternet (t : Tables) : Prop where
  apart : ∀ g ∈ t.grants, ∀ h ∈ t.grants, g.clientId = h.clientId → t.Uses g → t.Uses h → g.nodeId = h.nodeId
  plain : ∀ g ∈ t.grants, t.isHubNode g.nodeId = true → g.exit = false

/-- The call gives no device a node exit beside a grant of the hub, and no grant of the hub beside a node exit. -/
def keepsOneExit (op : Op) (db : Db) : Bool :=
  match op with
  | .setGrant clientId nodeId => ¬ (db.isHubNode nodeId ∧ db.exitsOf clientId ≠ [])
  | .setGrantExit clientId _ true => db.hubGrantsOf clientId = []
  | _ => true

variable {hub : Hub} {secret : String} {db db' : Db} {t t' : Tables} {op : Op} {client : Uuid} {g : GrantRow}

theorem mem_exitsOf : g ∈ t.exitsOf client ↔ g ∈ t.grants ∧ g.clientId = client ∧ g.exit = true := by
  simp [Tables.exitsOf]

theorem mem_hubGrantsOf :
    g ∈ t.hubGrantsOf client ↔ g ∈ t.grants ∧ g.clientId = client ∧ t.isHubNode g.nodeId = true := by
  simp [Tables.hubGrantsOf]

/-- A device has one way to the internet at most. -/
theorem OneInternet.length_le (h : OneInternet db.toTables) (client : Uuid) :
    (db.exitsOf client).length + (db.hubGrantsOf client).length ≤ 1 := by
  have hone : OneExit db := fun g hg g' hg' he he' hc => h.apart g hg g' hg' hc (.inl he) (.inl he')
  cases hexits : db.exitsOf client with
  | nil =>
    have hle : (db.hubGrantsOf client).length ≤ 1 := by
      refine length_le_one_of_key fun g hg g' hg' => ?_
      obtain ⟨hmem, hc, hhub⟩ := mem_hubGrantsOf.mp hg
      obtain ⟨hmem', hc', hhub'⟩ := mem_hubGrantsOf.mp hg'
      have hclient : g.clientId = g'.clientId := hc.trans hc'.symm
      exact Prod.ext hclient (h.apart g hmem g' hmem' hclient (.inr hhub) (.inr hhub'))
    simpa using hle
  | cons g rest =>
    -- a grant of the hub would be the exit itself
    have hnone : db.hubGrantsOf client = [] := by
      rw [List.eq_nil_iff_forall_not_mem]
      intro g' hg'
      obtain ⟨hmem', hc', hhub'⟩ := mem_hubGrantsOf.mp hg'
      obtain ⟨hmem, hc, hexit⟩ := mem_exitsOf.mp (hexits ▸ List.mem_cons_self : g ∈ db.exitsOf client)
      have hnode := h.apart g hmem g' hmem' (hc.trans hc'.symm) (.inl hexit) (.inr hhub')
      have hplain := h.plain g hmem (hnode ▸ hhub')
      exact absurd (hexit.symm.trans hplain) (by simp)
    have hle := hone.length_le client
    rw [hexits] at hle
    simpa [hnone] using hle

/-! ## Calls -/

/-- A node is the hub's or not from its creation on. -/
theorem isHubNode_of_effect (wf : t.Constraints) (wf' : t'.Constraints) (h : Effect op t t') {id : Uuid}
    (hid : id ∈ t.nodes.map NodeRow.id) (hid' : id ∈ t'.nodes.map NodeRow.id) :
    t'.isHubNode id = t.isHubNode id := by
  obtain ⟨n, hn, rfl⟩ := List.mem_map.mp hid
  obtain ⟨n', hn', hsame⟩ := List.mem_map.mp hid'
  have hkept : op ≠ .deleteNode n.id := by
    rintro rfl
    exact node_deleted h hn' hsame
  obtain ⟨m, hm, hstays⟩ := node_stays wf h hn hkept
  obtain rfl := node_eq_of_id wf' hn' hm (hsame.trans hstays.id.symm)
  have hrow : ∀ {t : Tables} {n : NodeRow}, t.Constraints → n ∈ t.nodes → t.isHubNode n.id = n.isHub := by
    intro t n wf hn
    rw [Bool.eq_iff_iff, Tables.isHubNode, List.any_eq_true]
    constructor
    · rintro ⟨x, hx, hxn⟩
      obtain ⟨hid, hhub⟩ := of_decide_eq_true hxn
      rwa [← node_eq_of_id wf hx hn hid]
    · exact fun hhub => ⟨n, hn, by simp [hhub]⟩
  rw [hrow wf hn, ← hsame, hrow wf' hn', hstays.isHub]

/-- The hub has one node. -/
theorem hubNode_unique (wf : t.Constraints) {i j : Uuid} (hi : t.isHubNode i = true) (hj : t.isHubNode j = true) :
    i = j := by
  obtain ⟨n, hn, hni⟩ := List.any_eq_true.mp hi
  obtain ⟨m, hm, hmj⟩ := List.any_eq_true.mp hj
  obtain ⟨rfl, hnhub⟩ := of_decide_eq_true hni
  obtain ⟨rfl, hmhub⟩ := of_decide_eq_true hmj
  have hn' : n ∈ t.nodes.filter NodeRow.isHub := List.mem_filter.mpr ⟨hn, hnhub⟩
  have hm' : m ∈ t.nodes.filter NodeRow.isHub := List.mem_filter.mpr ⟨hm, hmhub⟩
  have hlen := wf.nodes_single_hub
  match hl : t.nodes.filter NodeRow.isHub with
  | [] => exact absurd (hl ▸ hn') List.not_mem_nil
  | [x] =>
    rw [hl, List.mem_singleton] at hn' hm'
    rw [hn', hm']
  | _ :: _ :: _ => exact absurd (hl ▸ hlen) (by simp)

/-- Where a grant's row after a call comes from. -/
inductive GrantFrom (t : Tables) : Op → GrantRow → Prop
  | kept {op : Op} {g : GrantRow} (hg : g ∈ t.grants) : GrantFrom t op g
  | granted {clientId nodeId} : GrantFrom t (.setGrant clientId nodeId) ⟨clientId, nodeId, false⟩
  | exitSet {clientId nodeId exit} (hhub : t.isHubNode nodeId = false)
      (hother : exit = true → t.exitsElsewhere clientId nodeId = false) :
      GrantFrom t (.setGrantExit clientId nodeId exit) ⟨clientId, nodeId, exit⟩

/-- Where each grant comes from after a call. -/
theorem grantFrom_of_effect (h : Effect op t t') (hg : g ∈ t'.grants) : GrantFrom t op g := by
  cases h with
  | @granted _ clientId nodeId =>
    simp only [Write.eval] at hg
    split at hg
    · exact .kept hg
    · rcases List.mem_append.mp hg with hold | hnew
      · exact .kept hold
      · rw [List.mem_singleton.mp hnew]
        exact .granted
  | @exitSet _ clientId nodeId exit hhas hhub hother =>
    obtain ⟨g', hg', rfl⟩ := List.mem_map.mp hg
    split
    · rename_i hkey
      obtain ⟨rfl, rfl⟩ := Prod.mk.inj hkey
      exact .exitSet hhub hother
    · exact .kept hg'
  | deletedNode | deletedClient | revoked => exact .kept (List.mem_filter.mp hg).1
  | _ => exact .kept hg

/-- Of two grants that take one device to the internet, one that a call made is of the other's node. -/
theorem GrantFrom.sameNode (hone : OneInternet db.toTables) (hok : keepsOneExit op db = true) {h : GrantRow}
    (hnew : GrantFrom db.toTables op g) (hg : db.Uses g) (hmem : h ∈ db.grants) (hh : db.Uses h)
    (hclient : g.clientId = h.clientId) : g.nodeId = h.nodeId := by
  cases hnew with
  | kept hmem' => exact hone.apart g hmem' h hmem hclient hg hh
  | @granted clientId nodeId =>
    have hhub : db.isHubNode nodeId = true := hg.resolve_left (by simp)
    rcases hh with hexit | hhub'
    · have hfree : ¬ (db.isHubNode nodeId = true ∧ db.exitsOf clientId ≠ []) := of_decide_eq_true hok
      exact absurd ⟨hhub, List.ne_nil_of_mem (mem_exitsOf.mpr ⟨hmem, hclient.symm, hexit⟩)⟩ hfree
    · exact hubNode_unique db.wf hhub hhub'
  | @exitSet clientId nodeId exit hhub hother =>
    have hexit : exit = true := hg.resolve_right (by simp [hhub])
    subst hexit
    rcases hh with hexit' | hhub'
    · -- the check of `setGrantExit` found no other exit
      by_contra hne
      have hnode : (db.nodes.any fun n => n.id = h.nodeId) = true := by
        obtain ⟨n, hn, hid⟩ := List.mem_map.mp (db.wf.grants_node_fkey h hmem)
        exact List.any_eq_true.mpr ⟨n, hn, decide_eq_true hid⟩
      have hnone := List.any_eq_false.mp (hother rfl) h hmem
      exact hnone (decide_eq_true ⟨hexit', hclient.symm, Ne.symm hne, hnode⟩)
    · have hfree : db.hubGrantsOf clientId = [] := of_decide_eq_true hok
      exact absurd (mem_hubGrantsOf.mpr ⟨hmem, hclient.symm, hhub'⟩) (by simp [hfree])

/-- A grant and its flag leave the nodes alone. -/
theorem isHubNode_of_grant {clientId nodeId : Uuid} (exit : Bool)
    (h : Effect (.setGrant clientId nodeId) t t' ∨ Effect (.setGrantExit clientId nodeId exit) t t') :
    t'.isHubNode = t.isHubNode := by
  rcases h with h | h <;> cases h <;> rfl

/-- **Step.** A call that does not mix the two ways out keeps every device at one. -/
theorem oneInternet_step (hok : keepsOneExit op db = true) (wf' : t'.Constraints) (h : Effect op db.toTables t')
    (hone : OneInternet db.toTables) : OneInternet t' := by
  -- a grant's node is the hub's after the call if it was before
  have hsame : ∀ g ∈ t'.grants, t'.isHubNode g.nodeId = db.isHubNode g.nodeId := by
    intro g hg
    cases grantFrom_of_effect h hg with
    | kept hmem => exact isHubNode_of_effect db.wf wf' h (db.wf.grants_node_fkey g hmem) (wf'.grants_node_fkey g hg)
    | granted => exact congrFun (isHubNode_of_grant false (.inl h)) _
    | exitSet => exact congrFun (isHubNode_of_grant _ (.inr h)) _
  have huses : ∀ g ∈ t'.grants, t'.Uses g → db.Uses g := fun g hg hu => hu.imp_right (hsame g hg ▸ ·)
  constructor
  case apart =>
    intro g hg g' hg' hclient hu hu'
    have hu := huses g hg hu
    have hu' := huses g' hg' hu'
    have hleft : g' ∈ db.grants → g.nodeId = g'.nodeId := fun hmem' =>
      (grantFrom_of_effect h hg).sameNode hone hok hu hmem' hu' hclient
    have hright : g ∈ db.grants → g.nodeId = g'.nodeId := fun hmem =>
      ((grantFrom_of_effect h hg').sameNode hone hok hu' hmem hu hclient.symm).symm
    cases grantFrom_of_effect h hg with
    | kept hmem => exact hright hmem
    | granted =>
      cases grantFrom_of_effect h hg' with
      | kept hmem' => exact hleft hmem'
      | granted => rfl
    | exitSet =>
      cases grantFrom_of_effect h hg' with
      | kept hmem' => exact hleft hmem'
      | exitSet => rfl
  case plain =>
    intro g hg hhub
    rw [hsame g hg] at hhub
    cases grantFrom_of_effect h hg with
    | kept hmem => exact hone.plain g hmem hhub
    | granted => rfl
    | exitSet hno => exact absurd (hno.symm.trans hhub) (by simp)

/-- After a grant was inserted there is one, and the others are still there. -/
theorem grants_insertGrant (t : Tables) (g₀ : GrantRow) :
    (∀ g ∈ t.grants, g ∈ (Write.eval t (.insertGrant g₀)).grants) ∧
      ∃ g ∈ (Write.eval t (.insertGrant g₀)).grants, g.key = g₀.key := by
  simp only [Write.eval]
  split
  · rename_i hkey
    exact ⟨fun g hg => hg, List.mem_map.mp hkey⟩
  · exact ⟨fun g hg => List.mem_append_left _ hg, g₀, List.mem_append_right _ List.mem_cons_self, rfl⟩

/-- The condition leaves out only calls that give a device a second way out. -/
theorem second_exit_of_mixed (hmix : keepsOneExit op db = false) (h : Effect op db.toTables t') :
    ∃ client, 2 ≤ (t'.exitsOf client).length + (t'.hubGrantsOf client).length := by
  -- one exit and one grant of the hub's node make two
  have two : ∀ client g g', g ∈ t'.exitsOf client → g' ∈ t'.hubGrantsOf client →
      2 ≤ (t'.exitsOf client).length + (t'.hubGrantsOf client).length := by
    intro client g g' hg hg'
    have hpos := List.length_pos_of_mem hg
    have hpos' := List.length_pos_of_mem hg'
    omega
  obtain ⟨t, ht⟩ : ∃ t, db.toTables = t := ⟨_, rfl⟩
  cases op with
  | setGrant clientId nodeId =>
    obtain ⟨hhub, hexits⟩ : db.isHubNode nodeId = true ∧ db.exitsOf clientId ≠ [] := by
      simpa [keepsOneExit] using hmix
    obtain ⟨g, hg⟩ := List.exists_mem_of_ne_nil _ hexits
    obtain ⟨hmem, hc, hexit⟩ := mem_exitsOf.mp hg
    rw [ht] at h hmem hhub
    cases h
    obtain ⟨hkept, g', hg', hkey⟩ := grants_insertGrant t ⟨clientId, nodeId, false⟩
    obtain ⟨hc', hn'⟩ := Prod.mk.inj hkey
    exact ⟨clientId, two clientId g g' (mem_exitsOf.mpr ⟨hkept g hmem, hc, hexit⟩)
      (mem_hubGrantsOf.mpr ⟨hg', hc', hn' ▸ hhub⟩)⟩
  | setGrantExit clientId nodeId exit =>
    cases exit with
    | false => exact absurd hmix (by simp [keepsOneExit])
    | true =>
      have hne : db.hubGrantsOf clientId ≠ [] := by simpa [keepsOneExit] using hmix
      obtain ⟨g', hg'⟩ := List.exists_mem_of_ne_nil _ hne
      obtain ⟨hmem, hc, hhub⟩ := mem_hubGrantsOf.mp hg'
      rw [ht] at h hmem hhub
      cases h with
      | exitSet hhas hplain =>
        obtain ⟨g, hg, hkey⟩ := List.any_eq_true.mp hhas
        have hkey : g.key = (clientId, nodeId) := of_decide_eq_true hkey
        -- the grant whose exit is set is of another node, since the hub's refuses it
        have hkept : g'.key ≠ (clientId, nodeId) := fun he =>
          absurd (hplain.symm.trans ((Prod.mk.inj he).2 ▸ hhub)) (by simp)
        refine ⟨clientId, two clientId { g with exit := true } g' (mem_exitsOf.mpr ⟨?_, (Prod.mk.inj hkey).1, rfl⟩)
          (mem_hubGrantsOf.mpr ⟨?_, hc, hhub⟩)⟩
        · exact List.mem_map.mpr ⟨g, hg, if_pos hkey⟩
        · exact List.mem_map.mpr ⟨g', hmem, if_neg hkept⟩
  | _ => exact absurd hmix (by simp [keepsOneExit])

/-! ## Runs -/

/-- **One internet exit for each device**, in every state that calls reach from the first start none of which
    mixes node exits with grants of the hub. -/
theorem one_internet_exit
    (hcalls : Calls apply Op.body (fun op db => keepsOneExit op db = true) (Db.boot hub secret) db)
    (client : Uuid) : (db.exitsOf client).length + (db.hubGrantsOf client).length ≤ 1 := by
  have hone : OneInternet db.toTables :=
    effect_induction (I := OneInternet) (fun _ _ _ hok h wf' hone => oneInternet_step hok wf' h hone) hcalls
      ⟨by simp [Db.boot], by simp [Db.boot]⟩
  exact hone.length_le client

/-- A device that exits through a node. -/
def nodeExitRun : List Op :=
  [.ensureHubNode 9, .createNode 1 "home" "eth0" [⟨.ofBytes 192 168 1 0, 24⟩] ⟨"priv1", "pub1"⟩ "",
    .createClient 3 "phone" "" ⟨"priv3", "pub3"⟩ "", .setGrant 3 1, .setGrantExit 3 1 true]

/-- **The defect.** A grant of the hub is given to a device that exits through a node. -/
theorem setGrant_second_exit : ∃ db,
    runAll apply Op.body (fun _ _ => true) (Db.boot demoHub "") (nodeExitRun ++ [.setGrant 3 9]) = some db ∧
    ¬ (db.exitsOf 3).length + (db.hubGrantsOf 3).length ≤ 1 := by
  have hrun : ((runAll apply Op.body (fun _ _ => true) (Db.boot demoHub "")
      (nodeExitRun ++ [.setGrant 3 9])).map fun db =>
      (db.exitsOf 3).length + (db.hubGrantsOf 3).length) = some 2 := by decide +kernel
  obtain ⟨db, hdb, hcount⟩ := Option.map_eq_some_iff.mp hrun
  exact ⟨db, hdb, by omega⟩

/-- The device's node exit is switched off before it gets the grant of the hub. -/
theorem one_internet_exit_switched : ∃ db,
    runAll apply Op.body keepsOneExit (Db.boot demoHub "")
      (nodeExitRun ++ [.setGrantExit 3 1 false, .setGrant 3 9]) = some db ∧
    (db.exitsOf 3).length + (db.hubGrantsOf 3).length ≤ 1 := by
  have hrun : (runAll apply Op.body keepsOneExit (Db.boot demoHub "")
      (nodeExitRun ++ [.setGrantExit 3 1 false, .setGrant 3 9])).isSome = true := by decide +kernel
  obtain ⟨db, hdb⟩ := Option.isSome_iff_exists.mp hrun
  exact ⟨db, hdb, one_internet_exit (calls_of_runAll hdb) 3⟩

end Store
end BeautyAwg
