import Mathlib.Data.Multiset.MapFold
import BeautyAwg.Store.Correctness.PortLimits

/-!
# `Store.Correctness.RuleLists`: a saved access level

`SetGrantRules` replaces the rules of a grant as a whole or not at all. What it accepts is checked in three
places: by the call itself, by the translation of zero to NULL and by the constraints of the table
(`accepted_iff` puts them together). The rules of a grant are then read back as they were given, once each,
with destinations in canonical form, and those of every other grant as before.

## Contents
- **Reads.** `loadedGrantRules`, `GrantRulesRead`.
- **Acceptance.** `RuleDTO.Valid`, `accepted_iff`.
- **Round trip.** `setGrantRules_lossless`.
-/

namespace BeautyAwg
namespace Store

open Netip Awg Txn

variable {db db' : Db} {clientId nodeId : Uuid} {rules : List RuleDTO} {t : Tables}

/-! ## Reads -/

/-- What `loadAllGrantRules` returns on the rows in the order the query returns them. -/
def loadedGrantRules (rows : List RuleRow) : Uuid × Uuid → List GrantRule :=
  rows.foldl (fun out r => Function.update out r.key (out r.key ++ [toRule r])) fun _ => []

/-- What `GrantRules` can return: rules with the same destination come in any order. -/
def GrantRulesRead (t : Tables) (clientId nodeId : Uuid) (out : List RuleDTO) : Prop :=
  ∃ rows : List RuleRow, rows.Perm (t.rulesOf clientId nodeId) ∧
    rows.Pairwise (fun a b => cidrLe a.dest b.dest = true) ∧ out = rows.map RuleRow.dto

theorem loadedGrantRules_eq (rows : List RuleRow) (key : Uuid × Uuid) :
    loadedGrantRules rows key = (rows.filter fun r => r.key = key).map toRule := by
  -- the fold from any map, for the induction
  have hfold : ∀ out : Uuid × Uuid → List GrantRule,
      rows.foldl (fun out r => Function.update out r.key (out r.key ++ [toRule r])) out key =
        out key ++ (rows.filter fun r => r.key = key).map toRule := by
    induction rows with
    | nil => exact fun out => (List.append_nil _).symm
    | cons r rs ih =>
      intro out
      rw [List.foldl_cons, ih]
      by_cases hkey : r.key = key
      · rw [List.filter_cons_of_pos (by simp [hkey]), hkey, Function.update_self, List.map_cons,
          List.append_assoc, List.singleton_append]
      · rw [List.filter_cons_of_neg (by simpa using hkey), Function.update_of_ne (Ne.symm hkey)]
  exact hfold _

/-- Whatever the order of the rows, the rules of a grant are those of its rows. -/
theorem loadedGrantRules_read {rows : List RuleRow} (h : RulesRead t rows) (clientId nodeId : Uuid) :
    (loadedGrantRules rows (clientId, nodeId) : Multiset GrantRule) = (t.rulesOf clientId nodeId).map toRule := by
  rw [loadedGrantRules_eq]
  exact Multiset.coe_eq_coe.mpr ((h.filter _).map _)

theorem grantRules_read {out : List RuleDTO} (h : GrantRulesRead t clientId nodeId out) :
    (out : Multiset RuleDTO) = (t.rulesOf clientId nodeId).map RuleRow.dto := by
  obtain ⟨rows, hperm, -, rfl⟩ := h
  exact Multiset.coe_eq_coe.mpr (hperm.map _)

/-! ## Acceptance -/

/-- A rule that can be stored: a prefix without host bits, a known protocol, and ports that are zero or ports,
    in order if both are there. -/
structure RuleDTO.Valid (r : RuleDTO) : Prop where
  dest : ∃ p, parsePrefix r.dest = some p ∧ IsCidr p
  proto : r.proto = "any" ∨ r.proto = "tcp" ∨ r.proto = "udp"
  portFrom : r.portFrom = 0 ∨ 1 ≤ r.portFrom ∧ r.portFrom ≤ 65535
  portTo : r.portTo = 0 ∨ 1 ≤ r.portTo ∧ r.portTo ≤ 65535
  order : r.portFrom ≠ 0 → r.portTo ≠ 0 → r.portFrom ≤ r.portTo

/-- The rule as the renderers are to get it. -/
def RuleDTO.meant (r : RuleDTO) : Option GrantRule :=
  (parsePrefix r.dest).map fun dest => ⟨dest, r.proto, r.portFrom, r.portTo⟩

/-- The rule with its destination in canonical form. -/
def RuleDTO.canonical (r : RuleDTO) : Option RuleDTO :=
  (parsePrefix r.dest).map fun dest => { r with dest := dest.text }

theorem mem_nullIfZero {n x : Int} : x ∈ nullIfZero n ↔ n ≠ 0 ∧ n = x := by
  unfold nullIfZero
  split
  · rename_i hzero
    simp [hzero]
  · rename_i hne
    simp [hne]

/-- The checks of the table on the ports, before zero became NULL. -/
theorem portsOk_iff {a b : Int} : PortsOk (nullIfZero a) (nullIfZero b) ↔
    (a = 0 ∨ 1 ≤ a ∧ a ≤ 65535) ∧ (b = 0 ∨ 1 ≤ b ∧ b ≤ 65535) ∧ (a ≠ 0 → b ≠ 0 → a ≤ b) := by
  unfold PortsOk
  simp only [mem_nullIfZero]
  constructor
  · rintro ⟨hfrom, hto, horder⟩
    refine ⟨?_, ?_, fun ha hb => horder a ⟨ha, rfl⟩ b ⟨hb, rfl⟩⟩
    · by_cases ha : a = 0
      · exact .inl ha
      · exact .inr (hfrom a ⟨ha, rfl⟩)
    · by_cases hb : b = 0
      · exact .inl hb
      · exact .inr (hto b ⟨hb, rfl⟩)
  · rintro ⟨hfrom, hto, horder⟩
    refine ⟨?_, ?_, ?_⟩
    · rintro x ⟨ha, rfl⟩
      exact hfrom.resolve_left ha
    · rintro x ⟨hb, rfl⟩
      exact hto.resolve_left hb
    · rintro x ⟨ha, rfl⟩ y ⟨hb, rfl⟩
      exact horder ha hb

/-- A rule is valid when it makes a row that the table takes. -/
theorem valid_iff (clientId nodeId : Uuid) {r : RuleDTO} :
    r.Valid ↔ ∃ row, ruleRow clientId nodeId r = some row ∧ row.Ok := by
  constructor
  · rintro ⟨⟨p, hp, hcidr⟩, hproto, hfrom, hto, horder⟩
    refine ⟨⟨clientId, nodeId, p, r.proto, nullIfZero r.portFrom, nullIfZero r.portTo⟩, ?_, hcidr, hproto, ?_⟩
    · rw [ruleRow, hp, Option.map_some]
    · exact portsOk_iff.mpr ⟨hfrom, hto, horder⟩
  · rintro ⟨row, hrow, hcidr, hproto, hports⟩
    obtain ⟨p, hp, rfl⟩ := Option.map_eq_some_iff.mp hrow
    obtain ⟨hfrom, hto, horder⟩ := portsOk_iff.mp hports
    exact ⟨⟨p, hp, hcidr⟩, hproto, hfrom, hto, horder⟩

/-- **What is accepted**: valid rules, for a grant that exists. -/
theorem accepted_iff : Accepts db (.setGrantRules clientId nodeId rules) ↔
    db.hasGrant clientId nodeId = true ∧ ∀ r ∈ rules, r.Valid := by
  constructor
  · rintro ⟨db', h⟩
    have hrows := forall₂_of_mapM (rulesOf_setGrantRules h)
    have heff := effect_setGrantRules h
    refine ⟨?_, fun r hr => (valid_iff clientId nodeId).mpr ?_⟩
    · generalize db.toTables = t, db'.toTables = t' at heff
      cases heff with
      | ruled hg _ => exact hg
    · obtain ⟨row, hmem, hrow⟩ := (OnePer.of_forall₂ hrows).item hr
      have hstored : row ∈ db'.grantRules := (List.mem_filter.mp hmem).1
      exact ⟨row, hrow, db'.wf.rules_cidr row hstored, db'.wf.rules_proto_check row hstored,
        db'.wf.rules_port_check row hstored⟩
  · rintro ⟨hg, hvalid⟩
    exact accepts_setGrantRules hg fun r hr => (valid_iff clientId nodeId).mp (hvalid r hr)

/-! ## Round trip -/

/-- Both readers return for the grant exactly these rules. -/
structure ReadsBack (t : Tables) (clientId nodeId : Uuid) (rules : List RuleDTO) : Prop where
  load : ∀ rows, RulesRead t rows →
    ((loadedGrantRules rows (clientId, nodeId)).map some : Multiset (Option GrantRule)) = rules.map RuleDTO.meant
  list : ∀ out, GrantRulesRead t clientId nodeId out →
    (out.map some : Multiset (Option RuleDTO)) = rules.map RuleDTO.canonical

/-- Both readers return for the grant what they return in the other state. -/
structure ReadsSame (t t' : Tables) (clientId nodeId : Uuid) : Prop where
  load : ∀ rows rows', RulesRead t rows → RulesRead t' rows' →
    (loadedGrantRules rows' (clientId, nodeId) : Multiset GrantRule) = loadedGrantRules rows (clientId, nodeId)
  list : ∀ out, GrantRulesRead t' clientId nodeId out ↔ GrantRulesRead t clientId nodeId out

theorem dto_ruleRow (clientId nodeId : Uuid) (r : RuleDTO) :
    (ruleRow clientId nodeId r).map RuleRow.dto = r.canonical := by
  rw [ruleRow, Option.map_map]
  unfold RuleDTO.canonical
  congr 1
  funext dest
  show (⟨dest.text, r.proto, (nullIfZero r.portFrom).getD 0, (nullIfZero r.portTo).getD 0⟩ : RuleDTO) = _
  rw [getD_nullIfZero, getD_nullIfZero]

/-- What is read of the stored rows, in terms of what was given. -/
theorem map_rulesOf {β : Type} (f : RuleRow → β)
    (h : run apply (setGrantRules clientId nodeId rules) db = .ok ((), db')) :
    ((db'.rulesOf clientId nodeId).map f).map some = rules.map fun r => (ruleRow clientId nodeId r).map f := by
  have hrows := forall₂_of_mapM (rulesOf_setGrantRules h)
  generalize db'.rulesOf clientId nodeId = rows at hrows
  clear h
  induction hrows with
  | nil => rfl
  | cons hr _ ih => rw [List.map_cons, List.map_cons, List.map_cons, ih, hr, Option.map_some]

theorem readsBack_setGrantRules (h : run apply (setGrantRules clientId nodeId rules) db = .ok ((), db')) :
    ReadsBack db'.toTables clientId nodeId rules where
  load := by
    intro rows hread
    have hload := congrArg (Multiset.map some) (loadedGrantRules_read hread clientId nodeId)
    rw [Multiset.map_coe, Multiset.map_coe, map_rulesOf toRule h] at hload
    rw [hload]
    exact congrArg _ (List.map_congr_left fun r _ => toRule_ruleRow clientId nodeId r)
  list := by
    intro out hread
    have hlist := congrArg (Multiset.map some) (grantRules_read hread)
    rw [Multiset.map_coe, Multiset.map_coe, map_rulesOf RuleRow.dto h] at hlist
    rw [hlist]
    exact congrArg _ (List.map_congr_left fun r _ => dto_ruleRow clientId nodeId r)

/-- The rules of another grant are the same rows. -/
theorem rulesOf_others (h : run apply (setGrantRules clientId nodeId rules) db = .ok ((), db')) {c n : Uuid}
    (hother : (c, n) ≠ (clientId, nodeId)) : db'.rulesOf c n = db.rulesOf c n := by
  have heff := effect_setGrantRules h
  generalize db'.toTables = t' at heff ⊢
  cases heff with
  | @ruled _ _ _ _ rows _ hrows =>
    have hkept : (db.grantRules.filter fun r => r.key ≠ (clientId, nodeId)).filter (fun r => r.key = (c, n)) =
        db.grantRules.filter fun r => r.key = (c, n) := by
      rw [List.filter_filter]
      refine List.filter_congr fun r _ => ?_
      by_cases hkey : r.key = (c, n)
      · simp [hkey, hother]
      · simp [hkey]
    -- the new rows are all of the grant that was called for
    have hnew : rows.filter (fun r => r.key = (c, n)) = [] := by
      refine List.filter_eq_nil_iff.mpr fun row hrow => ?_
      obtain ⟨r, -, hr⟩ := (OnePer.of_forall₂ (forall₂_of_mapM hrows)).row hrow
      obtain ⟨dest, -, rfl⟩ := Option.map_eq_some_iff.mp hr
      exact fun hkey => hother (of_decide_eq_true hkey).symm
    rw [Tables.rulesOf, Tables.rulesOf, List.filter_append, hkept, hnew, List.append_nil]

theorem readsSame_of_rulesOf {t t' : Tables} {c n : Uuid} (h : t'.rulesOf c n = t.rulesOf c n) :
    ReadsSame t t' c n where
  load := by
    intro rows rows' hread hread'
    rw [loadedGrantRules_read hread, loadedGrantRules_read hread', h]
  list := by
    intro out
    rw [GrantRulesRead, GrantRulesRead, h]

/-- **All or nothing, and lossless.** The call fails and neither table changes; or the grant exists, its new
    rules are valid and read back as they were given, and every other grant reads as before. -/
theorem setGrantRules_lossless (db : Db) (clientId nodeId : Uuid) (rules : List RuleDTO) :
    ∃ db' result, atomically apply (setGrantRules clientId nodeId rules) db = (db', result) ∧
      ((∃ e, result = .error e ∧ db'.grants = db.grants ∧ db'.grantRules = db.grantRules) ∨
        result = .ok () ∧ db'.grants = db.grants ∧ db.hasGrant clientId nodeId = true ∧ (∀ r ∈ rules, r.Valid) ∧
          ReadsBack db'.toTables clientId nodeId rules ∧
            ∀ c n, (c, n) ≠ (clientId, nodeId) → ReadsSame db.toTables db'.toTables c n) := by
  rcases @atomically_cases _ _ _ _ _ apply (setGrantRules clientId nodeId rules) db with
    ⟨⟨⟩, db', hrun, h⟩ | ⟨e, -, h⟩
  · obtain ⟨hgrant, hvalid⟩ := accepted_iff.mp ⟨db', hrun⟩
    have hgrants : db'.grants = db.grants := by
      have heff := effect_setGrantRules hrun
      generalize db'.toTables = t' at heff ⊢
      cases heff
      rfl
    exact ⟨db', _, h, .inr ⟨rfl, hgrants, hgrant, hvalid, readsBack_setGrantRules hrun,
      fun c n hother => readsSame_of_rulesOf (rulesOf_others hrun hother)⟩⟩
  · exact ⟨db, _, h, .inl ⟨e, rfl, rfl, rfl⟩⟩

end Store
end BeautyAwg
