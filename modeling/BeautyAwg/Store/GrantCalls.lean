import Mathlib.Data.List.Sort
import BeautyAwg.Lib.NetipText
import BeautyAwg.Store.Effect

/-!
# `Store.GrantCalls`: reading one grant, and when its calls are accepted

The two queries of `grant_rules.go` behind the rule editor, and the converse of `Store.Effect` for the
calls that change a grant: not what an accepted call did, but which calls are accepted.

## Contents
- **Reads.** `grantExit`, `grantRules`; `ruleRow_dto`: a rule read from one grant and saved for another
  is the same rule.
- **Access.** `exitFlag` and `rulesOf`: how a device reaches a node, as functions that each write updates
  at one place.
- **Acceptance.** `Accepts`, with a lemma for each of the four calls.
-/

namespace BeautyAwg
namespace Store

open Netip Txn

/-! ## Reads -/

/-- Whether the grant is an internet exit. -/
def grantExit (clientId nodeId : Uuid) (db : Db) : Except StoreErr Bool :=
  match db.grants.find? fun g => g.key = (clientId, nodeId) with
  | some g => .ok g.exit
  | none => .error (.text "grant does not exist")

/-- The order of `cidr` values: the address first, then the shorter prefix. -/
def cidrLe (p q : Prefix) : Bool := if p.addr = q.addr then decide (p.bits ≤ q.bits) else p.addr.le q.addr

/-- The HTTP shape of a stored rule; a missing port is zero. -/
def RuleRow.dto (r : RuleRow) : RuleDTO := ⟨r.dest.text, r.proto, r.portFrom.getD 0, r.portTo.getD 0⟩

/-- The rules of a grant, ordered by destination. -/
def grantRules (clientId nodeId : Uuid) (db : Db) : List RuleDTO :=
  ((db.grantRules.filter fun r => r.key = (clientId, nodeId)).insertionSort
    fun a b => cidrLe a.dest b.dest).map RuleRow.dto

/-- What a rule permits. -/
def RuleRow.limit (r : RuleRow) : Prefix × String × Option Int × Option Int :=
  (r.dest, r.proto, r.portFrom, r.portTo)

/-- The rule as a row of another grant. -/
def RuleRow.for (r : RuleRow) (clientId nodeId : Uuid) : RuleRow :=
  { r with clientId := clientId, nodeId := nodeId }

@[simp] theorem RuleRow.limit_for (r : RuleRow) (clientId nodeId : Uuid) :
    (r.for clientId nodeId).limit = r.limit := rfl

@[simp] theorem RuleRow.key_for (r : RuleRow) (clientId nodeId : Uuid) :
    (r.for clientId nodeId).key = (clientId, nodeId) := rfl

/-- A port that a rule can have is stored and given back as it was. -/
theorem nullIfZero_getD {p : Option Int} (h : ∀ x ∈ p, 1 ≤ x ∧ x ≤ 65535) : nullIfZero (p.getD 0) = p := by
  cases p with
  | none => rfl
  | some x =>
    have hx := (h x rfl).1
    show (if x = 0 then none else some x) = some x
    rw [if_neg (by omega)]

/-- A stored rule, read and saved again, is stored as it was. -/
theorem ruleRow_dto {r : RuleRow} (hdest : IsCidr r.dest) (hports : PortsOk r.portFrom r.portTo)
    (clientId nodeId : Uuid) : ruleRow clientId nodeId r.dto = some (r.for clientId nodeId) := by
  show (parsePrefix r.dest.text).map _ = _
  rw [parsePrefix_text hdest.1, Option.map_some]
  simp only [RuleRow.dto, RuleRow.for, nullIfZero_getD hports.1, nullIfZero_getD hports.2.1]

variable {db db' : Db} {clientId nodeId : Uuid}

theorem mapM_eq_some_map {α β : Type} {f : α → Option β} {g : α → β} {l : List α}
    (h : ∀ a ∈ l, f a = some (g a)) : l.mapM f = some (l.map g) := by
  induction l with
  | nil => rfl
  | cons a l ih =>
    rw [List.mapM_cons, h a List.mem_cons_self, ih fun b hb => h b (List.mem_cons_of_mem _ hb)]
    rfl

/-! ## Access -/

/-- Whether the device exits through the node; nothing when the node is not granted to it. -/
def Tables.exitFlag (t : Tables) (clientId nodeId : Uuid) : Option Bool :=
  (t.grants.find? fun g => g.key = (clientId, nodeId)).map GrantRow.exit

/-- The rows that limit the device at the node. -/
def Tables.rulesOf (t : Tables) (clientId nodeId : Uuid) : List RuleRow :=
  t.grantRules.filter fun r => r.key = (clientId, nodeId)

/-- `GrantExit` answers with the grant's exit flag. -/
theorem grantExit_eq_ok {exit : Bool} :
    grantExit clientId nodeId db = .ok exit ↔ db.exitFlag clientId nodeId = some exit := by
  unfold grantExit Tables.exitFlag
  cases db.grants.find? fun g => g.key = (clientId, nodeId) <;> simp

/-- There is a grant when there is a flag. -/
theorem hasGrant_eq (t : Tables) : t.hasGrant clientId nodeId = (t.exitFlag clientId nodeId).isSome := by
  rw [Tables.exitFlag, Option.isSome_map, Tables.hasGrant, Bool.eq_iff_iff, List.find?_isSome, List.any_eq_true]

/-- The flag is the one in the grant's row. -/
theorem exitFlag_eq_some {exit : Bool} :
    db.exitFlag clientId nodeId = some exit ↔ ⟨clientId, nodeId, exit⟩ ∈ db.grants := by
  unfold Tables.exitFlag
  constructor
  · intro h
    obtain ⟨g, hg, rfl⟩ := Option.map_eq_some_iff.mp h
    have hkey : g.key = (clientId, nodeId) := by simpa using List.find?_some hg
    obtain ⟨rfl, rfl⟩ := Prod.mk.inj hkey
    exact List.mem_of_find?_eq_some hg
  · intro hmem
    cases hg : db.grants.find? fun g => g.key = (clientId, nodeId) with
    | none => exact absurd (List.find?_eq_none.mp hg _ hmem) (by simp [GrantRow.key])
    | some g =>
      have hkey : g.key = (clientId, nodeId) := by simpa using List.find?_some hg
      rw [grant_eq_of_key db.wf (List.mem_of_find?_eq_some hg) hmem hkey]
      rfl

/-- The device exits elsewhere when the flag of another node is set. -/
theorem exitsElsewhere_eq_false : db.exitsElsewhere clientId nodeId = false ↔
    ∀ n, n ≠ nodeId → db.exitFlag clientId n ≠ some true := by
  rw [Tables.exitsElsewhere, List.any_eq_false]
  constructor
  · intro h n hn hflag
    have hmem := exitFlag_eq_some.mp hflag
    refine h _ hmem ?_
    have hthere : (db.nodes.any fun x => x.id = n) = true := by
      obtain ⟨x, hx, hid⟩ := List.mem_map.mp (db.wf.grants_node_fkey _ hmem)
      exact List.any_eq_true.mpr ⟨x, hx, by simpa using hid⟩
    simp [hn, hthere]
  · intro h g hg hother
    obtain ⟨hex, hc, hne, -⟩ := of_decide_eq_true hother
    refine h g.nodeId hne (exitFlag_eq_some.mpr ?_)
    rwa [← hc, ← hex]

section Writes

variable (t : Tables) {x y : Uuid}

/-- A new grant has no exit, and one that is there keeps its flag. -/
theorem exitFlag_insertGrant :
    (Write.eval t (.insertGrant ⟨clientId, nodeId, false⟩)).exitFlag x y =
      if (x, y) = (clientId, nodeId) then some ((t.exitFlag x y).getD false) else t.exitFlag x y := by
  have hkey : GrantRow.key ⟨clientId, nodeId, false⟩ = (clientId, nodeId) := rfl
  unfold Tables.exitFlag
  simp only [Write.eval, hkey]
  by_cases hold : (clientId, nodeId) ∈ t.grants.map GrantRow.key
  · rw [if_pos hold]
    split
    · rename_i hxy
      obtain ⟨g, hg, hgk⟩ := List.mem_map.mp hold
      obtain ⟨g', hg'⟩ : ∃ g', (t.grants.find? fun g => g.key = (x, y)) = some g' := by
        rw [← Option.isSome_iff_exists, List.find?_isSome]
        exact ⟨g, hg, by simp [hgk, hxy]⟩
      rw [hg']
      rfl
    · rfl
  · rw [if_neg hold, List.find?_append]
    split
    · rename_i hxy
      have hnone : (t.grants.find? fun g => g.key = (x, y)) = none := by
        rw [List.find?_eq_none]
        intro g hg hk
        exact hold (List.mem_map.mpr ⟨g, hg, by simpa [hxy] using hk⟩)
      rw [hnone]
      simp [hkey, hxy]
    · rename_i hxy
      have hnone : List.find? (fun g => g.key = (x, y)) [(⟨clientId, nodeId, false⟩ : GrantRow)] = none := by
        rw [List.find?_eq_none]
        intro g hg hk
        rw [List.mem_singleton.mp hg, hkey] at hk
        exact hxy (of_decide_eq_true hk).symm
      rw [hnone, Option.or_none]

/-- A deleted grant has no flag. -/
theorem exitFlag_deleteGrant :
    (Write.eval t (.deleteGrant (clientId, nodeId))).exitFlag x y =
      if (x, y) = (clientId, nodeId) then none else t.exitFlag x y := by
  unfold Tables.exitFlag
  simp only [Write.eval, List.find?_filter]
  split
  · rename_i hxy
    rw [Option.map_eq_none_iff, List.find?_eq_none]
    intro g _ hk
    simp [hxy] at hk
  · rename_i hxy
    congr 1
    refine List.find?_congr fun g _ => ?_
    by_cases hk : g.key = (x, y)
    · simp [hk, hxy]
    · simp [hk]

/-- A grant whose exit is set has the new flag. -/
theorem exitFlag_setExit {exit : Bool} (h : t.hasGrant clientId nodeId = true) :
    (Write.eval t (.setExit (clientId, nodeId) exit)).exitFlag x y =
      if (x, y) = (clientId, nodeId) then some exit else t.exitFlag x y := by
  have hkey : ∀ g : GrantRow, (if g.key = (clientId, nodeId) then { g with exit := exit } else g).key = g.key := by
    intro g
    split <;> rfl
  rw [hasGrant_eq, Tables.exitFlag, Option.isSome_map] at h
  unfold Tables.exitFlag
  simp only [Write.eval, List.find?_map, Function.comp_def, hkey, Option.map_map]
  cases hg : t.grants.find? fun g => g.key = (x, y) with
  | none =>
    rw [Option.map_none, Option.map_none, if_neg]
    intro hxy
    rw [← Prod.mk.inj hxy |>.1, ← Prod.mk.inj hxy |>.2, hg] at h
    exact absurd h (by simp)
  | some g =>
    have hgk : g.key = (x, y) := by simpa using List.find?_some hg
    rw [Option.map_some, Option.map_some, hgk]
    split <;> rfl

/-- Deleting a grant leaves the rules of another device. -/
theorem rulesOf_deleteGrant (hne : x ≠ clientId) :
    (Write.eval t (.deleteGrant (clientId, nodeId))).rulesOf x y = t.rulesOf x y := by
  simp only [Tables.rulesOf, Write.eval, List.filter_filter]
  refine List.filter_congr fun r _ => ?_
  by_cases hk : r.key = (x, y)
  · simp [hk, hne]
  · simp [hk]

end Writes

/-- Without a grant there are no rules. -/
theorem rulesOf_eq_nil (h : db.exitFlag clientId nodeId = none) : db.rulesOf clientId nodeId = [] := by
  rw [Tables.rulesOf, List.filter_eq_nil_iff]
  intro r hr hk
  obtain ⟨g, hg, hkey⟩ := List.mem_map.mp (db.wf.rules_grant_fkey r hr)
  rw [Tables.exitFlag, Option.map_eq_none_iff, List.find?_eq_none] at h
  exact h g hg (by simpa [hkey] using hk)

/-- The rules saved from a read are the stored ones, in some order. -/
theorem mapM_grantRules (newClient newNode : Uuid) :
    ∃ rows, (grantRules clientId nodeId db).mapM (ruleRow newClient newNode) = some rows ∧
      rows.Perm ((db.rulesOf clientId nodeId).map fun r => r.for newClient newNode) := by
  refine ⟨_, ?_, (List.perm_insertionSort (fun a b => cidrLe a.dest b.dest) _).map _⟩
  rw [grantRules, List.mapM_map]
  refine mapM_eq_some_map fun r hr => ?_
  have hmem : r ∈ db.grantRules := (List.mem_filter.mp ((List.mem_insertionSort _).mp hr)).1
  exact ruleRow_dto (db.wf.rules_cidr r hmem) (db.wf.rules_port_check r hmem) newClient newNode

/-! ## Acceptance -/

/-- The call, made alone, is accepted. -/
def Accepts (db : Db) (op : Op) : Prop := ∃ db', run apply op.body db = .ok ((), db')

theorem apply_ok {w : Write} (h : (w.eval db.toTables).Constraints) :
    apply w db = .ok ⟨w.eval db.toTables, h⟩ := dif_pos h

theorem accepts_write {w : Write} (h : (w.eval db.toTables).Constraints) :
    run apply (Txn.write w : Tx Unit) db = .ok ((), ⟨w.eval db.toTables, h⟩) := by
  rw [run_write, apply_ok h]
  rfl

/-- A grant between a device and a node that are there is accepted. -/
theorem accepts_setGrant (hc : clientId ∈ db.clients.map ClientRow.id) (hn : nodeId ∈ db.nodes.map NodeRow.id) :
    Accepts db (.setGrant clientId nodeId) := by
  refine ⟨_, accepts_write ?_⟩
  show Tables.Constraints { db.toTables with grants := _ }
  split
  · exact db.wf
  · rename_i hnew
    refine { db.wf with grants_pkey := ?_, grants_client_fkey := ?_, grants_node_fkey := ?_, rules_grant_fkey := ?_ }
    · rw [List.map_append]
      exact db.wf.grants_pkey.append (List.nodup_singleton _) (by simpa using hnew)
    · intro g hg
      rcases List.mem_append.mp hg with hg | hg
      · exact db.wf.grants_client_fkey g hg
      · rw [List.mem_singleton.mp hg]
        exact hc
    · intro g hg
      rcases List.mem_append.mp hg with hg | hg
      · exact db.wf.grants_node_fkey g hg
      · rw [List.mem_singleton.mp hg]
        exact hn
    · intro r hr
      rw [List.map_append]
      exact List.mem_append_left _ (db.wf.rules_grant_fkey r hr)

/-- The deletion of a grant is accepted, also of one that is not there. -/
theorem accepts_deleteGrant : Accepts db (.deleteGrant clientId nodeId) := by
  refine ⟨_, accepts_write ?_⟩
  refine { db.wf with grants_pkey := ?_, grants_client_fkey := ?_, grants_node_fkey := ?_,
                      rules_grant_fkey := ?_, rules_cidr := ?_, rules_proto_check := ?_, rules_port_check := ?_ }
  · exact db.wf.grants_pkey.sublist (List.filter_sublist.map _)
  · exact fun g hg => db.wf.grants_client_fkey g (List.mem_of_mem_filter hg)
  · exact fun g hg => db.wf.grants_node_fkey g (List.mem_of_mem_filter hg)
  · intro r hr
    -- the cascade has dropped the rules of the grant
    obtain ⟨hr, hne⟩ := List.mem_filter.mp hr
    obtain ⟨g, hg, hkey⟩ := List.mem_map.mp (db.wf.rules_grant_fkey r hr)
    exact List.mem_map.mpr ⟨g, List.mem_filter.mpr ⟨hg, hkey ▸ hne⟩, hkey⟩
  · exact fun r hr => db.wf.rules_cidr r (List.mem_of_mem_filter hr)
  · exact fun r hr => db.wf.rules_proto_check r (List.mem_of_mem_filter hr)
  · exact fun r hr => db.wf.rules_port_check r (List.mem_of_mem_filter hr)

theorem constraints_setExit {key : Uuid × Uuid} {exit : Bool} :
    (Write.eval db.toTables (.setExit key exit)).Constraints := by
  have hkeys : (Write.eval db.toTables (.setExit key exit)).grants.map GrantRow.key =
      db.grants.map GrantRow.key := by
    simp only [Write.eval, List.map_map]
    refine List.map_congr_left fun g _ => ?_
    show (if g.key = key then { g with exit := exit } else g).key = g.key
    split <;> rfl
  -- a grant refers to what it referred to before
  have hold : ∀ g ∈ (Write.eval db.toTables (.setExit key exit)).grants,
      ∃ g₀ ∈ db.grants, g₀.key = g.key := fun g hg =>
    List.mem_map.mp (hkeys ▸ List.mem_map_of_mem hg)
  refine { db.wf with grants_pkey := ?_, grants_client_fkey := ?_, grants_node_fkey := ?_, rules_grant_fkey := ?_ }
  · rw [hkeys]
    exact db.wf.grants_pkey
  · intro g hg
    obtain ⟨g₀, hg₀, hkey⟩ := hold g hg
    rw [← (Prod.mk.inj hkey).1]
    exact db.wf.grants_client_fkey g₀ hg₀
  · intro g hg
    obtain ⟨g₀, hg₀, hkey⟩ := hold g hg
    rw [← (Prod.mk.inj hkey).2]
    exact db.wf.grants_node_fkey g₀ hg₀
  · intro r hr
    rw [hkeys]
    exact db.wf.rules_grant_fkey r hr

/-- The check for another exit passes when there is none, or none is asked for. -/
theorem run_refuseOtherExit {exit : Bool} (h : exit = true → db.exitsElsewhere clientId nodeId = false) :
    run apply (refuseOtherExit clientId nodeId exit) db = .ok ((), db) := by
  unfold refuseOtherExit
  split
  · rename_i hexit
    have hnone : otherExits clientId nodeId db = [] := by
      refine List.flatMap_eq_nil_iff.mpr fun g hg => List.map_eq_nil_iff.mpr (List.filter_eq_nil_iff.mpr ?_)
      intro n hn hid
      obtain ⟨hg, hother⟩ := List.mem_filter.mp hg
      obtain ⟨hex, hc, hne⟩ := of_decide_eq_true hother
      have hthere : (db.nodes.any fun n => n.id = g.nodeId) = true := List.any_eq_true.mpr ⟨n, hn, hid⟩
      refine List.any_eq_false.mp (h hexit) g hg ?_
      simp [hex, hc, hne, hthere]
    rw [run_bind, run_read]
    dsimp only
    rw [hnone]
    rfl
  · rfl

/-- The exit of a grant can be set unless the node is the hub's, or the device is to exit and does so
    elsewhere. -/
theorem accepts_setGrantExit_iff {exit : Bool} : Accepts db (.setGrantExit clientId nodeId exit) ↔
    db.hasGrant clientId nodeId = true ∧ (db.nodes.any fun n => n.id = nodeId ∧ n.isHub) = false ∧
      (exit = true → db.exitsElsewhere clientId nodeId = false) := by
  constructor
  · rintro ⟨db', h⟩
    have heff := effect_setGrantExit h
    generalize db.toTables = t, db'.toTables = t' at heff
    cases heff with
    | exitSet hg hhub hother => exact ⟨hg, hhub, hother⟩
  · rintro ⟨hg, hhub, hother⟩
    have hexist : grantExists clientId nodeId db = true := hg
    have hkept : (Write.eval db.toTables (.setExit (clientId, nodeId) exit)).Constraints := constraints_setExit
    refine ⟨⟨_, hkept⟩, ?_⟩
    show run apply (setGrantExit clientId nodeId exit) db = _
    unfold setGrantExit
    rw [run_bind, run_read]
    dsimp only
    rw [if_neg (by simp [hexist]), if_neg (by simpa using hhub), run_bind, run_refuseOtherExit hother]
    exact accepts_write hkept

theorem constraints_deleteRule {r : RuleRow} : (Write.eval db.toTables (.deleteRule r)).Constraints :=
  { db.wf with
    rules_grant_fkey := fun x hx => db.wf.rules_grant_fkey x (List.mem_of_mem_erase hx)
    rules_cidr := fun x hx => db.wf.rules_cidr x (List.mem_of_mem_erase hx)
    rules_proto_check := fun x hx => db.wf.rules_proto_check x (List.mem_of_mem_erase hx)
    rules_port_check := fun x hx => db.wf.rules_port_check x (List.mem_of_mem_erase hx) }

/-- The rules of a grant can always be deleted. -/
theorem applyAll_deleteRules (rows : List RuleRow) :
    ∃ db', applyAll apply (rows.map .deleteRule) db = .ok db' := by
  induction rows generalizing db with
  | nil => exact ⟨db, rfl⟩
  | cons r rows ih =>
    have hkept : (Write.eval db.toTables (.deleteRule r)).Constraints := constraints_deleteRule
    obtain ⟨db', h⟩ := @ih ⟨_, hkept⟩
    exact ⟨db', applyAll_cons_ok.mpr ⟨_, apply_ok hkept, h⟩⟩

/-- A row the checks on rules let through. -/
structure RuleRow.Ok (r : RuleRow) : Prop where
  cidr : IsCidr r.dest
  proto : r.proto = "any" ∨ r.proto = "tcp" ∨ r.proto = "udp"
  ports : PortsOk r.portFrom r.portTo

/-- A rule in order can be inserted for a grant that is there. -/
theorem constraints_insertRule {r : RuleRow} (hg : db.hasGrant r.clientId r.nodeId = true) (h : r.Ok) :
    (Write.eval db.toTables (.insertRule r)).Constraints := by
  have hnew : ∀ {P : RuleRow → Prop}, (∀ x ∈ db.grantRules, P x) → P r →
      ∀ x ∈ db.grantRules ++ [r], P x := by
    intro P hold hr x hx
    rcases List.mem_append.mp hx with hx | hx
    · exact hold x hx
    · rw [List.mem_singleton.mp hx]
      exact hr
  have hkey : r.key ∈ db.grants.map GrantRow.key := by
    obtain ⟨g, hmem, hk⟩ := List.any_eq_true.mp hg
    exact List.mem_map.mpr ⟨g, hmem, of_decide_eq_true hk⟩
  exact { db.wf with
    rules_grant_fkey := hnew db.wf.rules_grant_fkey hkey
    rules_cidr := hnew db.wf.rules_cidr h.cidr
    rules_proto_check := hnew db.wf.rules_proto_check h.proto
    rules_port_check := hnew db.wf.rules_port_check h.ports }

/-- A list of rules in order can be inserted for a grant that is there. -/
theorem run_insertRules {rules : List RuleDTO} (hg : db.hasGrant clientId nodeId = true)
    (h : ∀ r ∈ rules, ∃ row, ruleRow clientId nodeId r = some row ∧ row.Ok) :
    ∃ db', run apply (insertRules clientId nodeId rules) db = .ok ((), db') := by
  induction rules generalizing db with
  | nil => exact ⟨db, rfl⟩
  | cons r rs ih =>
    obtain ⟨row, hrow, hok⟩ := h r List.mem_cons_self
    obtain ⟨dest, hdest, rfl⟩ := Option.map_eq_some_iff.mp hrow
    have hproto := hok.proto
    obtain ⟨db', hrest⟩ := @ih ⟨_, constraints_insertRule hg hok⟩ hg fun x hx => h x (List.mem_cons_of_mem _ hx)
    refine ⟨db', ?_⟩
    rw [insertRules, hdest]
    show run apply (if r.proto ≠ "any" ∧ r.proto ≠ "tcp" ∧ r.proto ≠ "udp" then _ else _) db = _
    rw [if_neg (by simp only [ne_eq]; tauto), run_bind, accepts_write (constraints_insertRule hg hok)]
    exact hrest

/-- So the call that replaces a grant's rules is accepted. -/
theorem accepts_setGrantRules {rules : List RuleDTO} (hg : db.hasGrant clientId nodeId = true)
    (h : ∀ r ∈ rules, ∃ row, ruleRow clientId nodeId r = some row ∧ row.Ok) :
    Accepts db (.setGrantRules clientId nodeId rules) := by
  obtain ⟨db₁, hdrop⟩ : ∃ db₁, applyAll apply
      ((db.grantRules.filter fun r => r.key = (clientId, nodeId)).map .deleteRule) db = .ok db₁ :=
    applyAll_deleteRules _
  have hgrants : db₁.hasGrant clientId nodeId = true := by
    have := eval_of_applyAll hdrop
    rw [foldl_deleteRule] at this
    rw [← this]
    exact hg
  obtain ⟨db', hinsert⟩ := run_insertRules hgrants h
  refine ⟨db', ?_⟩
  have hexist : grantExists clientId nodeId db = true := hg
  show run apply (setGrantRules clientId nodeId rules) db = _
  rw [setGrantRules, run_bind, run_read]
  dsimp only
  rw [if_pos hexist, run, hdrop]
  exact hinsert

/-- Rules read from a grant are accepted for every other. -/
theorem grantRules_ok {newClient newNode : Uuid} :
    ∀ r ∈ grantRules clientId nodeId db, ∃ row, ruleRow newClient newNode r = some row ∧ row.Ok := by
  intro r hr
  obtain ⟨row, hrow, rfl⟩ := List.mem_map.mp hr
  have hmem : row ∈ db.grantRules := (List.mem_filter.mp ((List.mem_insertionSort _).mp hrow)).1
  have hcidr := db.wf.rules_cidr row hmem
  have hports := db.wf.rules_port_check row hmem
  exact ⟨row.for newClient newNode, ruleRow_dto hcidr hports newClient newNode,
    hcidr, db.wf.rules_proto_check row hmem, hports⟩

end Store
end BeautyAwg
