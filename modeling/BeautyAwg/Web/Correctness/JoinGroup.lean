import BeautyAwg.Web.Groups

/-!
# `Web.Correctness.JoinGroup`: what a device has after it joined a group

`joinGroup` first lines up which locations the device reaches and then, location by location, how it
reaches each one. `SetGrantExit` refuses the hub's node outright and refuses a second exit, so the second
part stops at a location that is the hub's, and at the group's exit while the device still exits through a
location that comes later in the list. `joinGroup_exact_iff` says that nothing else can go wrong.

## Contents
- **Access.** `SameAccess`, `Settled`, `JoinsExactly`.
- **Apart.** The requests for one device leave the others' access alone.
- **Loops.** What each of the three loops does, and when the last one ends.
-/

namespace BeautyAwg
namespace Web

open Awg Store Txn Requests

/-! ## Access -/

/-- A device of `t` reaches what a device of `t'` reaches, in the same way. -/
structure SameAccess (t : Tables) (c : Uuid) (t' : Tables) (m : Uuid) : Prop where
  flags : ∀ n, t.exitFlag c n = t'.exitFlag m n
  rules : ∀ n, ((t.rulesOf c n).map RuleRow.limit).Perm ((t'.rulesOf m n).map RuleRow.limit)

/-- The members of a group have the same access, and there is one. -/
structure Settled (t : Tables) (members : List Uuid) : Prop where
  nonempty : members ≠ []
  same : ∀ m ∈ members, ∀ m' ∈ members, SameAccess t m t m'

/-- What the map holds as a device's `granted_nodes`: its granted nodes, in some order. -/
def Listed (db : Db) (granted : Uuid → List Uuid) : Prop :=
  ∀ c, (granted c).Perm ((db.grants.filter fun g => g.clientId = c).map GrantRow.nodeId)

/-- The device joins without an error, with the access the members had and have. -/
def JoinsExactly (db : Db) (granted : Uuid → List Uuid) (members : List Uuid) (clientId : Uuid) : Prop :=
  ∃ db', Ends (joinGroup granted members clientId) db () db' ∧
    ∀ m ∈ members, SameAccess db'.toTables clientId db.toTables m ∧ SameAccess db'.toTables m db.toTables m

/-- The group reaches no hub node and, of two locations in the order they are copied, the members exit
    through the first only if they do not exit through the second and neither does the device. -/
def Copyable (t : Tables) (members : List Uuid) (clientId : Uuid) (target : List Uuid) : Prop :=
  (∀ n ∈ target, (t.nodes.any fun x => x.id = n ∧ x.isHub) = false) ∧
    target.Pairwise fun x y => (∃ m ∈ members, t.exitFlag m x = some true) →
      (∀ m ∈ members, t.exitFlag m y ≠ some true) ∧ t.exitFlag clientId y ≠ some true

instance (t : Tables) (members : List Uuid) (clientId : Uuid) (target : List Uuid) :
    Decidable (Copyable t members clientId target) := inferInstanceAs (Decidable (_ ∧ _))

variable {db db' : Db} {granted : Uuid → List Uuid} {members : List Uuid} {client : Uuid}

theorem mem_listed (h : Listed db granted) {c n : Uuid} : n ∈ granted c ↔ (db.exitFlag c n).isSome = true := by
  rw [(h c).mem_iff, Option.isSome_iff_exists, List.mem_map]
  constructor
  · rintro ⟨g, hg, rfl⟩
    obtain ⟨hmem, hc⟩ := List.mem_filter.mp hg
    refine ⟨g.exit, exitFlag_eq_some.mpr ?_⟩
    rwa [← of_decide_eq_true hc]
  · rintro ⟨e, he⟩
    exact ⟨_, List.mem_filter.mpr ⟨exitFlag_eq_some.mp he, decide_eq_true rfl⟩, rfl⟩

theorem nodup_eraseDups {α : Type} [DecidableEq α] (l : List α) : l.eraseDups.Nodup := by
  generalize hn : l.length = n
  induction n using Nat.strong_induction_on generalizing l with
  | _ n ih =>
    cases l with
    | nil => exact List.nodup_nil
    | cons a l =>
      have hlen := List.length_filter_le (fun b => !b == a) l
      rw [List.eraseDups_cons, List.nodup_cons]
      refine ⟨fun hmem => ?_, ih _ ?_ _ rfl⟩
      · have := (List.mem_filter.mp (List.mem_eraseDups.mp hmem)).2
        simp at this
      · rw [← hn]
        exact Nat.lt_succ_of_le hlen

theorem mem_groupGrants {n : Uuid} : n ∈ groupGrants members granted ↔ ∃ m ∈ members, n ∈ granted m := by
  rw [groupGrants, List.mem_eraseDups, List.mem_flatMap]

/-! ## Apart -/

/-- The nodes are the same, and so is every other device's access. -/
structure Apart (client : Uuid) (t t' : Tables) : Prop where
  nodes : t'.nodes = t.nodes
  clients : t'.clients = t.clients
  flags : ∀ m, m ≠ client → ∀ n, t'.exitFlag m n = t.exitFlag m n
  rules : ∀ m, m ≠ client → ∀ n, t'.rulesOf m n = t.rulesOf m n

theorem Apart.refl (client : Uuid) (t : Tables) : Apart client t t := ⟨rfl, rfl, fun _ _ _ => rfl, fun _ _ _ => rfl⟩

theorem Apart.trans {t t' t'' : Tables} (h : Apart client t t') (h' : Apart client t' t'') :
    Apart client t t'' where
  nodes := h'.nodes.trans h.nodes
  clients := h'.clients.trans h.clients
  flags m hm n := (h'.flags m hm n).trans (h.flags m hm n)
  rules m hm n := (h'.rules m hm n).trans (h.rules m hm n)

theorem ends_call_iff {op : Op} : Ends (call op) db () db' ↔ run apply op.body db = .ok ((), db') := by
  rw [call, ends_call]
  cases run apply op.body db with
  | error e => simp [Except.map]
  | ok r => simp [Except.map, Prod.ext_iff]

variable {x : Uuid}

theorem ends_grant (h : Ends (grant client x) db () db') : Apart client db.toTables db'.toTables ∧
    ∀ n, db'.exitFlag client n = if n = x then some ((db.exitFlag client n).getD false)
      else db.exitFlag client n := by
  have heval : Write.eval db.toTables (.insertGrant ⟨client, x, false⟩) = db'.toTables :=
    run_write_eval (ends_call_iff.mp h)
  rw [← heval]
  refine ⟨⟨rfl, rfl, fun m hm n => ?_, fun m hm n => rfl⟩, fun n => ?_⟩
  · rw [exitFlag_insertGrant, if_neg]
    exact fun he => hm (Prod.mk.inj he).1
  · rw [exitFlag_insertGrant]
    simp only [Prod.mk.injEq, true_and]

theorem ends_revoke (h : Ends (revoke client x) db () db') : Apart client db.toTables db'.toTables ∧
    ∀ n, db'.exitFlag client n = if n = x then none else db.exitFlag client n := by
  have heval : Write.eval db.toTables (.deleteGrant (client, x)) = db'.toTables :=
    run_write_eval (ends_call_iff.mp h)
  rw [← heval]
  refine ⟨⟨rfl, rfl, fun m hm n => ?_, fun m hm n => rulesOf_deleteGrant _ hm⟩, fun n => ?_⟩
  · rw [exitFlag_deleteGrant, if_neg]
    exact fun he => hm (Prod.mk.inj he).1
  · rw [exitFlag_deleteGrant]
    simp only [Prod.mk.injEq, true_and]

theorem ends_setGrantExit {exit : Bool} (h : Ends (setGrantExit client x exit) db () db') :
    Apart client db.toTables db'.toTables ∧ (∀ n, db'.rulesOf client n = db.rulesOf client n) ∧
      ∀ n, db'.exitFlag client n = if n = x then some exit else db.exitFlag client n := by
  have hrun := ends_call_iff.mp h
  obtain ⟨hg, -, -⟩ := accepts_setGrantExit_iff.mp ⟨db', hrun⟩
  have heval : Write.eval db.toTables (.setExit (client, x) exit) = db'.toTables := by
    have heff := effect_of_run hrun
    generalize db.toTables = t, db'.toTables = t' at heff
    cases heff
    rfl
  rw [← heval]
  refine ⟨⟨rfl, rfl, fun m hm n => ?_, fun m hm n => rfl⟩, fun n => rfl, fun n => ?_⟩
  · rw [exitFlag_setExit _ hg, if_neg]
    exact fun he => hm (Prod.mk.inj he).1
  · rw [exitFlag_setExit _ hg]
    simp only [Prod.mk.injEq, true_and]

theorem ends_setGrantRules {rules : List RuleDTO} {rows : List RuleRow}
    (hrows : rules.mapM (ruleRow client x) = some rows) (hkeys : ∀ r ∈ rows, r.key = (client, x))
    (h : Ends (setGrantRules client x rules) db () db') :
    Apart client db.toTables db'.toTables ∧ (∀ n, db'.exitFlag client n = db.exitFlag client n) ∧
      ∀ n, db'.rulesOf client n = if n = x then rows else db.rulesOf client n := by
  -- what the call does, from its effect
  have hset : db'.toTables = { db.toTables with
      grantRules := (db.grantRules.filter fun r => r.key ≠ (client, x)) ++ rows } := by
    have heff := effect_of_run (ends_call_iff.mp h)
    generalize db.toTables = t, db'.toTables = t' at heff ⊢
    cases heff with
    | ruled hg hrows' =>
      rw [hrows] at hrows'
      rw [Option.some.inj hrows']
  have hrules : ∀ m n, db'.rulesOf m n = if (m, n) = (client, x) then rows else db.rulesOf m n := by
    intro m n
    rw [hset]
    simp only [Tables.rulesOf, List.filter_append, List.filter_filter]
    split
    · rename_i hmn
      -- the old rules of this grant are gone
      have hdropped : (db.grantRules.filter fun r => r.key = (m, n) && r.key ≠ (client, x)) = [] := by
        refine List.filter_eq_nil_iff.mpr fun r _ hr => ?_
        simp [hmn] at hr
      rw [hdropped, List.nil_append, List.filter_eq_self]
      exact fun r hr => decide_eq_true ((hkeys r hr).trans hmn.symm)
    · rename_i hmn
      -- and the new ones are of no other grant
      have hnone : (rows.filter fun r => r.key = (m, n)) = [] := by
        refine List.filter_eq_nil_iff.mpr fun r hr hk => hmn ?_
        rw [← hkeys r hr, of_decide_eq_true hk]
      rw [hnone, List.append_nil]
      refine List.filter_congr fun r _ => ?_
      by_cases hk : r.key = (m, n)
      · simp [hk, hmn]
      · simp [hk]
  refine ⟨⟨by rw [hset], by rw [hset], fun m hm n => by rw [hset]; rfl, fun m hm n => ?_⟩,
    fun n => by rw [hset]; rfl, fun n => ?_⟩
  · rw [hrules, if_neg]
    exact fun he => hm (Prod.mk.inj he).1
  · rw [hrules]
    simp only [Prod.mk.injEq, true_and]

/-! ## Loops -/

/-- The first loop grants what it goes over. -/
theorem ends_add {l : List Uuid} (h : Ends (forM l (grant client)) db () db') :
    Apart client db.toTables db'.toTables ∧
      ∀ n, db'.exitFlag client n = if n ∈ l then some ((db.exitFlag client n).getD false)
        else db.exitFlag client n := by
  refine ends_forM (I := fun done s => Apart client db.toTables s.toTables ∧ ∀ n, s.exitFlag client n =
    if n ∈ done then some ((db.exitFlag client n).getD false) else db.exitFlag client n) ?_ ?_ h
  · rintro done x todo s s' - ⟨hap, hflag⟩ hx
    obtain ⟨hap', hflag'⟩ := ends_grant hx
    refine ⟨hap.trans hap', fun n => ?_⟩
    rw [hflag', hflag]
    by_cases hn : n = x
    · subst hn
      by_cases hd : n ∈ done <;> simp [hd]
    · simp [hn]
  · exact ⟨.refl _ _, fun n => by simp⟩

/-- The second loop revokes what it goes over. -/
theorem ends_remove {l : List Uuid} (h : Ends (forM l (revoke client)) db () db') :
    Apart client db.toTables db'.toTables ∧
      ∀ n, db'.exitFlag client n = if n ∈ l then none else db.exitFlag client n := by
  refine ends_forM (I := fun done s => Apart client db.toTables s.toTables ∧ ∀ n, s.exitFlag client n =
    if n ∈ done then none else db.exitFlag client n) ?_ ?_ h
  · rintro done x todo s s' - ⟨hap, hflag⟩ hx
    obtain ⟨hap', hflag'⟩ := ends_revoke hx
    refine ⟨hap.trans hap', fun n => ?_⟩
    rw [hflag', hflag]
    by_cases hn : n = x <;> simp [hn]
  · exact ⟨.refl _ _, fun n => by simp⟩

/-- Nodes that exist can be granted to a device that exists. -/
theorem exists_ends_add {l : List Uuid} (hc : client ∈ db.clients.map ClientRow.id)
    (hl : ∀ n ∈ l, n ∈ db.nodes.map NodeRow.id) : ∃ db', Ends (forM l (grant client)) db () db' := by
  refine exists_ends_forM (J := fun s => Apart client db.toTables s.toTables) ?_ (.refl _ _)
  intro x hx s hap
  obtain ⟨s', h⟩ : Accepts s (.setGrant client x) :=
    accepts_setGrant (by rw [hap.clients]; exact hc) (by rw [hap.nodes]; exact hl x hx)
  have hends := ends_call_iff.mpr h
  exact ⟨s', hends, hap.trans (ends_grant hends).1⟩

theorem exists_ends_remove {l : List Uuid} : ∃ db', Ends (forM l (revoke client)) db () db' := by
  refine exists_ends_forM (J := fun _ => True) ?_ trivial
  intro x hx s _
  obtain ⟨s', h⟩ : Accepts s (.deleteGrant client x) := accepts_deleteGrant
  exact ⟨s', ends_call_iff.mpr h, trivial⟩

/-- The state of the last loop: the locations in `done` are as member `m` has them, the others of
    `target` are granted and exit if they did before. -/
structure Copied (db : Db) (m client : Uuid) (target done : List Uuid) (s : Db) : Prop where
  apart : Apart client db.toTables s.toTables
  flags : ∀ n, s.exitFlag client n = if n ∈ done then db.exitFlag m n
    else if n ∈ target then some ((db.exitFlag client n).getD false) else none
  rules : ∀ n ∈ done, ((s.rulesOf client n).map RuleRow.limit).Perm ((db.rulesOf m n).map RuleRow.limit)

/-- The first two loops line up which locations the device reaches. -/
theorem copied_nil {m : Uuid} {target : List Uuid} {s s' : Db} (hread : Listed db granted)
    (hadd : Ends (forM (syncPlan target (granted client)).add (grant client)) db () s)
    (hremove : Ends (forM (syncPlan target (granted client)).remove (revoke client)) s () s') :
    Copied db m client target [] s' := by
  obtain ⟨hap, hflags⟩ := ends_add hadd
  obtain ⟨hap', hflags'⟩ := ends_remove hremove
  refine ⟨hap.trans hap', fun n => ?_, fun n hn => absurd hn List.not_mem_nil⟩
  rw [if_neg List.not_mem_nil, hflags', hflags]
  have hcur : n ∈ granted client ↔ (db.exitFlag client n).isSome = true := mem_listed hread
  simp only [syncPlan, List.mem_filter, List.mem_eraseDups, decide_eq_true_eq]
  cases hflag : db.exitFlag client n with
  | none =>
    rw [hflag] at hcur
    have hnot : n ∉ granted client := fun h => absurd (hcur.mp h) (by simp)
    by_cases ht : n ∈ target <;> simp [hnot, ht]
  | some e =>
    rw [hflag] at hcur
    have hin : n ∈ granted client := hcur.mpr rfl
    by_cases ht : n ∈ target <;> simp [hin, ht]

theorem ends_copyAccess {rep : Uuid} {s s' : Db} (hrep : (members.find? fun m => x ∈ granted m) = some rep) :
    Ends (copyAccess granted members client x) s () s' ↔ ∃ e, s.exitFlag rep x = some e ∧
      ∃ s₁, Ends (setGrantExit client x e) s () s₁ ∧ Ends (setGrantRules client x (grantRules rep x s)) s₁ () s' := by
  simp only [copyAccess, hrep, ends_bind, getGrantExit, getGrantRules, ends_query, grantExit_eq_ok]
  constructor
  · rintro ⟨e, _, ⟨he, rfl⟩, rules, _, ⟨hr, rfl⟩, u, s₁, h₁, h₂⟩
    rw [← Except.ok.inj hr] at h₂
    exact ⟨e, he, s₁, h₁, h₂⟩
  · rintro ⟨e, he, s₁, h₁, h₂⟩
    exact ⟨e, s, ⟨he, rfl⟩, _, s, ⟨rfl, rfl⟩, (), s₁, h₁, h₂⟩

/-! ## One location -/

section Location

variable {m : Uuid} {target done todo : List Uuid} {s s' : Db}

/-- The member that a location is copied from has it as every member has. -/
theorem copy_source (hread : Listed db granted) (hset : Settled db.toTables members) (hout : client ∉ members)
    (hm : m ∈ members) (hap : Apart client db.toTables s.toTables) (hx : ∃ rep ∈ members, x ∈ granted rep) :
    ∃ rep e, (members.find? fun m => x ∈ granted m) = some rep ∧ s.exitFlag rep x = some e ∧
      db.exitFlag m x = some e ∧
      ((s.rulesOf rep x).map RuleRow.limit).Perm ((db.rulesOf m x).map RuleRow.limit) := by
  obtain ⟨rep, hrep⟩ : ∃ rep, (members.find? fun m => x ∈ granted m) = some rep := by
    obtain ⟨rep, hmem, hin⟩ := hx
    rw [← Option.isSome_iff_exists, List.find?_isSome]
    exact ⟨rep, hmem, decide_eq_true hin⟩
  have hmem : rep ∈ members := List.mem_of_find?_eq_some hrep
  have hin : x ∈ granted rep := by simpa using List.find?_some hrep
  have hne : rep ≠ client := fun he => hout (he ▸ hmem)
  obtain ⟨e, he⟩ := Option.isSome_iff_exists.mp ((mem_listed hread).mp hin)
  have hsame := hset.same rep hmem m hm
  refine ⟨rep, e, hrep, ?_, ?_, ?_⟩
  · rw [hap.flags rep hne, he]
  · rw [← hsame.flags, he]
  · rw [hap.rules rep hne]
    exact hsame.rules x

/-- A location that is copied is as the member has it, and the others are as before. -/
theorem copied_concat (hread : Listed db granted) (hset : Settled db.toTables members)
    (hout : client ∉ members) (hm : m ∈ members) (hx : ∃ rep ∈ members, x ∈ granted rep)
    (hc : Copied db m client target done s) (h : Ends (copyAccess granted members client x) s () s') :
    Copied db m client target (done ++ [x]) s' := by
  -- the copied member has what every member has
  obtain ⟨rep, e, hrep, hflag, hm', hperm⟩ := copy_source hread hset hout hm hc.apart hx
  obtain ⟨e', he', s₁, hexit, hrules⟩ := (ends_copyAccess hrep).mp h
  obtain rfl : e = e' := Option.some.inj (hflag.symm.trans he')
  obtain ⟨hap₁, hrules₁, hflags₁⟩ := ends_setGrantExit hexit
  obtain ⟨rows, hrows, hstored⟩ := @mapM_grantRules s rep x client x
  have hkeys : ∀ r ∈ rows, r.key = (client, x) := by
    intro r hr
    obtain ⟨r₀, -, rfl⟩ := List.mem_map.mp (hstored.mem_iff.mp hr)
    exact RuleRow.key_for r₀ client x
  have hlimits : (rows.map RuleRow.limit).Perm ((db.rulesOf m x).map RuleRow.limit) := by
    refine ((hstored.map RuleRow.limit).trans ?_).trans hperm
    rw [List.map_map]
    exact List.Perm.of_eq (List.map_congr_left fun r _ => RuleRow.limit_for r client x)
  obtain ⟨hap₂, hflags₂, hrules₂⟩ := ends_setGrantRules hrows hkeys hrules
  -- the two calls write this node's grant and leave the ones copied before
  refine ⟨(hc.apart.trans hap₁).trans hap₂, fun n => ?_, fun n hn => ?_⟩
  · rw [hflags₂, hflags₁, hc.flags]
    by_cases hnx : n = x
    · simp [hnx, hm']
    · simp [hnx]
  · rw [hrules₂]
    split
    · rename_i hnx
      rw [hnx]
      exact hlimits
    · rename_i hnx
      rw [hrules₁]
      refine hc.rules n ?_
      simpa [hnx] using hn

/-- When one location can be copied. -/
def CopyOk (t : Tables) (m client : Uuid) (done : List Uuid) (x : Uuid) (todo : List Uuid) : Prop :=
  (t.nodes.any fun n => n.id = x ∧ n.isHub) = false ∧ (t.exitFlag m x = some true →
    (∀ y ∈ done, t.exitFlag m y ≠ some true) ∧ ∀ y ∈ todo, t.exitFlag client y ≠ some true)

/-- While a location is copied, the device's other exits are those copied already and those it had. -/
theorem exitsElsewhere_copied (hnodup : target.Nodup) (hsplit : done ++ x :: todo = target)
    (hc : Copied db m client target done s) : s.exitsElsewhere client x = false ↔
      (∀ y ∈ done, db.exitFlag m y ≠ some true) ∧ ∀ y ∈ todo, db.exitFlag client y ≠ some true := by
  subst hsplit
  obtain ⟨-, htail, hdisj⟩ := List.nodup_append.mp hnodup
  have hxdone : x ∉ done := fun hd => hdisj x hd x List.mem_cons_self rfl
  have hxtodo : x ∉ todo := (List.nodup_cons.mp htail).1
  rw [exitsElsewhere_eq_false]
  constructor
  · intro h
    constructor
    · intro y hy
      have := h y fun he => hxdone (he ▸ hy)
      rwa [hc.flags, if_pos hy] at this
    · intro y hy hflag
      have hydone : y ∉ done := fun hd => hdisj y hd y (List.mem_cons_of_mem _ hy) rfl
      have := h y fun he => hxtodo (he ▸ hy)
      rw [hc.flags, if_neg hydone, if_pos (by simp [hy]), hflag] at this
      exact this rfl
  · rintro ⟨hdone, htodo⟩ y hyx hflag
    rw [hc.flags] at hflag
    split at hflag
    · rename_i hy
      exact hdone y hy hflag
    · rename_i hy
      split at hflag
      · rename_i hin
        have hytodo : y ∈ todo := by simpa [hy, hyx] using hin
        refine htodo y hytodo ?_
        -- a flag that is set was not made up by the default
        cases hold : db.exitFlag client y with
        | none => simp [hold] at hflag
        | some e => simpa [hold] using hflag
      · exact absurd hflag (by simp)

theorem copyAccess_iff (hread : Listed db granted) (hset : Settled db.toTables members)
    (hout : client ∉ members) (hm : m ∈ members) (hx : ∃ rep ∈ members, x ∈ granted rep)
    (hnodup : target.Nodup) (hsplit : done ++ x :: todo = target) (hc : Copied db m client target done s) :
    (∃ s', Ends (copyAccess granted members client x) s () s') ↔ CopyOk db.toTables m client done x todo := by
  obtain ⟨rep, e, hrep, hflag, hm', -⟩ := copy_source hread hset hout hm hc.apart hx
  have hgranted : s.hasGrant client x = true := by
    have hxdone : x ∉ done := by
      rw [← hsplit] at hnodup
      exact fun hd => (List.nodup_append.mp hnodup).2.2 x hd x List.mem_cons_self rfl
    rw [hasGrant_eq, hc.flags, if_neg hxdone, if_pos (by simp [← hsplit])]
    rfl
  have haccept : Accepts s (.setGrantExit client x e) ↔ CopyOk db.toTables m client done x todo := by
    rw [accepts_setGrantExit_iff, hc.apart.nodes, exitsElsewhere_copied hnodup hsplit hc, CopyOk, hm',
      Option.some.injEq]
    exact ⟨fun h => h.2, fun h => ⟨hgranted, h⟩⟩
  rw [← haccept]
  constructor
  · rintro ⟨s', h⟩
    obtain ⟨e', he', s₁, hexit, -⟩ := (ends_copyAccess hrep).mp h
    obtain rfl : e = e' := Option.some.inj (hflag.symm.trans he')
    exact ⟨s₁, ends_call_iff.mp hexit⟩
  · rintro ⟨s₁, hrun⟩
    have hexit : Ends (setGrantExit client x e) s () s₁ := ends_call_iff.mpr hrun
    have hgranted₁ : s₁.hasGrant client x = true := by
      rw [hasGrant_eq, (ends_setGrantExit hexit).2.2, if_pos rfl]
      rfl
    obtain ⟨s', hrules⟩ : Accepts s₁ (.setGrantRules client x (grantRules rep x s)) :=
      accepts_setGrantRules hgranted₁ grantRules_ok
    exact ⟨s', (ends_copyAccess hrep).mpr ⟨e, hflag, s₁, hexit, ends_call_iff.mpr hrules⟩⟩

end Location

/-! ## The whole join -/

/-- The condition of every step, for all steps. -/
theorem copyOk_all_iff {t : Tables} {m : Uuid} {target : List Uuid} :
    (∀ done x todo, done ++ x :: todo = target → CopyOk t m client done x todo) ↔
      (∀ n ∈ target, (t.nodes.any fun x => x.id = n ∧ x.isHub) = false) ∧
        target.Pairwise fun x y => t.exitFlag m x = some true →
          t.exitFlag m y ≠ some true ∧ t.exitFlag client y ≠ some true := by
  constructor
  · intro h
    refine ⟨fun n hn => ?_, ?_⟩
    · obtain ⟨done, todo, hsplit⟩ := List.append_of_mem hn
      exact (h done n todo hsplit.symm).1
    · rw [List.pairwise_iff_forall_sublist]
      intro x y hsub hx
      obtain ⟨before, after, rfl, hxin, hyin⟩ := List.cons_sublist_iff.mp hsub
      obtain ⟨done, mid, rfl⟩ := List.append_of_mem hxin
      obtain ⟨later, todo, rfl⟩ := List.append_of_mem (List.singleton_sublist.mp hyin)
      have hatx := h done x (mid ++ (later ++ y :: todo)) (by simp)
      have haty := h (done ++ x :: mid ++ later) y todo (by simp)
      refine ⟨fun hy => ?_, (hatx.2 hx).2 y (by simp)⟩
      exact (haty.2 hy).1 x (by simp) hx
  · rintro ⟨hhub, hpair⟩ done x todo rfl
    obtain ⟨-, hrest, hcross⟩ := List.pairwise_append.mp hpair
    obtain ⟨hafter, -⟩ := List.pairwise_cons.mp hrest
    refine ⟨hhub x (by simp), fun hx => ⟨fun y hy hyexit => ?_, fun y hy => (hafter y hy hx).2⟩⟩
    exact (hcross y hy x List.mem_cons_self hyexit).1 hx

/-- The device has the members' access once every location of the group is copied. -/
theorem sameAccess_of_copied {m : Uuid} {target : List Uuid} {s : Db} (hout : client ∉ members)
    (hset : Settled db.toTables members) (hm : m ∈ members)
    (htarget : ∀ n, n ∈ target ↔ (db.exitFlag m n).isSome = true) (hc : Copied db m client target target s) :
    ∀ m' ∈ members, SameAccess s.toTables client db.toTables m' ∧ SameAccess s.toTables m' db.toTables m' := by
  have hown : SameAccess s.toTables client db.toTables m := by
    refine ⟨fun n => ?_, fun n => ?_⟩
    · rw [hc.flags]
      split
      · rfl
      · rename_i hn
        cases hflag : db.exitFlag m n with
        | none => rfl
        | some e => exact absurd ((htarget n).mpr (by rw [hflag]; rfl)) hn
    · by_cases hn : n ∈ target
      · exact hc.rules n hn
      · have hdb : db.exitFlag m n = none := by
          rw [← Option.not_isSome_iff_eq_none, ← htarget]
          exact hn
        have hs : s.exitFlag client n = none := by rw [hc.flags, if_neg hn, if_neg hn]
        rw [rulesOf_eq_nil hdb, rulesOf_eq_nil hs]
  intro m' hm'
  have hne : m' ≠ client := fun he => hout (he ▸ hm')
  have hsame := hset.same m hm m' hm'
  constructor
  · exact ⟨fun n => (hown.flags n).trans (hsame.flags n), fun n => (hown.rules n).trans (hsame.rules n)⟩
  · exact ⟨hc.apart.flags m' hne, fun n => by rw [hc.apart.rules m' hne]⟩

/-- **Joining a group.** A device that joins a settled group gets the access of its members, without an
    error, exactly when every location of the group can be copied in its turn. -/
theorem joinGroup_exact_iff (hread : Listed db granted) (hset : Settled db.toTables members)
    (hclient : client ∈ db.clients.map ClientRow.id) (hout : client ∉ members) :
    JoinsExactly db granted members client ↔
      Copyable db.toTables members client (groupGrants members granted) := by
  obtain ⟨m, hm⟩ := List.exists_mem_of_ne_nil members hset.nonempty
  have hflags : ∀ n, (∃ m' ∈ members, db.exitFlag m' n = some true) ↔ db.exitFlag m n = some true :=
    fun n => ⟨fun ⟨m', hm', h⟩ => ((hset.same m hm m' hm').flags n).trans h, fun h => ⟨m, hm, h⟩⟩
  have hcopyable : Copyable db.toTables members client (groupGrants members granted) ↔
      ∀ done x todo, done ++ x :: todo = groupGrants members granted →
        CopyOk db.toTables m client done x todo := by
    have hnot : ∀ n, (∀ m' ∈ members, db.exitFlag m' n ≠ some true) ↔ db.exitFlag m n ≠ some true := by
      intro n
      rw [ne_eq, ← hflags n]
      exact ⟨fun h ⟨m', hm', he⟩ => h m' hm' he, fun h m' hm' he => h ⟨m', hm', he⟩⟩
    rw [copyOk_all_iff, Copyable]
    simp only [hflags, hnot]
  have hnodup : (groupGrants members granted).Nodup := nodup_eraseDups _
  have htarget : ∀ n, n ∈ groupGrants members granted ↔ (db.exitFlag m n).isSome = true := by
    intro n
    rw [mem_groupGrants]
    constructor
    · rintro ⟨m', hm', hn⟩
      rw [(hset.same m hm m' hm').flags n]
      exact (mem_listed hread).mp hn
    · exact fun hn => ⟨m, hm, (mem_listed hread).mpr hn⟩
  have hsource : ∀ n ∈ groupGrants members granted, ∃ rep ∈ members, n ∈ granted rep :=
    fun n hn => mem_groupGrants.mp hn
  have hjoin : joinTarget granted members client = groupGrants members granted := if_neg hset.nonempty
  -- the first two loops always end
  obtain ⟨s₁, hadd⟩ : ∃ s₁, Ends (forM (syncPlan (groupGrants members granted) (granted client)).add
      (grant client)) db () s₁ := by
    refine exists_ends_add hclient fun n hn => ?_
    obtain ⟨hn, -⟩ := List.mem_filter.mp hn
    obtain ⟨e, he⟩ := Option.isSome_iff_exists.mp ((htarget n).mp (List.mem_eraseDups.mp hn))
    exact db.wf.grants_node_fkey _ (exitFlag_eq_some.mp he)
  obtain ⟨s₂, hremove⟩ : ∃ s₂, Ends (forM (syncPlan (groupGrants members granted) (granted client)).remove
      (revoke client)) s₁ () s₂ := exists_ends_remove
  have hstart : Copied db m client (groupGrants members granted) [] s₂ := copied_nil hread hadd hremove
  have hkeep : ∀ done x todo s s', done ++ x :: todo = groupGrants members granted →
      Copied db m client (groupGrants members granted) done s →
      Ends (copyAccess granted members client x) s () s' →
      Copied db m client (groupGrants members granted) (done ++ [x]) s' := by
    intro done x todo s s' hsplit hc h
    exact copied_concat hread hset hout hm (hsource x (by simp [← hsplit])) hc h
  have hlast : (∃ s', Ends (forM (groupGrants members granted) (copyAccess granted members client)) s₂ () s') ↔
      Copyable db.toTables members client (groupGrants members granted) := by
    rw [hcopyable]
    refine ends_forM_iff hkeep (fun done x todo s hsplit hc => ?_) hstart
    exact copyAccess_iff hread hset hout hm (hsource x (by simp [← hsplit])) hnodup hsplit hc
  rw [← hlast]
  constructor
  · rintro ⟨db', hends, -⟩
    simp only [joinGroup, hjoin, ends_bind] at hends
    obtain ⟨u, s₁', hadd', v, s₂', hremove', hcopy⟩ := hends
    obtain rfl : s₁ = s₁' := (ends_unique hadd hadd').2
    obtain rfl : s₂ = s₂' := (ends_unique hremove hremove').2
    exact ⟨db', hcopy⟩
  · rintro ⟨db', hcopy⟩
    refine ⟨db', ?_, sameAccess_of_copied hout hset hm htarget (ends_forM hkeep hstart hcopy)⟩
    simp only [joinGroup, hjoin, ends_bind]
    exact ⟨(), s₁, hadd, (), s₂, hremove, hcopy⟩

/-! ### A group that may browse through the hub -/

/-- The granted nodes, in the order of the table. -/
def nodesOf (db : Db) (c : Uuid) : List Uuid := (db.grants.filter fun g => g.clientId = c).map GrantRow.nodeId

theorem listed_nodesOf (db : Db) : Listed db (nodesOf db) := fun _ => List.Perm.refl _

theorem settled_singleton (t : Tables) (m : Uuid) : Settled t [m] where
  nonempty := by simp
  same a ha b hb := by
    rw [List.mem_singleton.mp ha, List.mem_singleton.mp hb]
    exact ⟨fun _ => rfl, fun _ => List.Perm.refl _⟩

/-- A hub node, a home server and two devices; the first has the grants it is given. -/
def groupRun (grants : List Op) : List Op :=
  [.ensureHubNode 1, .createNode 4 "home" "eth0" [⟨.ofBytes 192 168 1 0, 24⟩] ⟨"priv4", "pub4"⟩ "",
    .createClient 2 "phone" "" ⟨"priv2", "pub2"⟩ "", .createClient 3 "laptop" "" ⟨"priv3", "pub3"⟩ ""] ++ grants

/-- **The defect.** The group may reach one address of the internet. The join is answered with an error and
    leaves the device with the grant and without the rule. -/
theorem joinGroup_stops_at_hub : ∃ db,
    runAll apply Op.body (fun _ _ => true) (Db.boot demoHub "")
      (groupRun [.setGrant 2 1, .setGrantRules 2 1 [⟨"8.8.8.8/32", "any", 0, 0⟩]]) = some db ∧
    Listed db (nodesOf db) ∧ Settled db.toTables [2] ∧ 3 ∈ db.clients.map ClientRow.id ∧
    ¬ JoinsExactly db (nodesOf db) [2] 3 ∧ (db.rulesOf 2 1).length = 1 ∧
    (((joinGroup (nodesOf db) [2] 3).run db).2.hasGrant 3 1 = true ∧
      ((joinGroup (nodesOf db) [2] 3).run db).2.rulesOf 3 1 = []) := by
  have hrun : ((runAll apply Op.body (fun _ _ => true) (Db.boot demoHub "")
      (groupRun [.setGrant 2 1, .setGrantRules 2 1 [⟨"8.8.8.8/32", "any", 0, 0⟩]])).any fun db =>
        decide (3 ∈ db.clients.map ClientRow.id) && (match ((joinGroup (nodesOf db) [2] 3).run db).1 with
          | .ok _ => false
          | .error _ => true) && decide ((db.rulesOf 2 1).length = 1) &&
        decide (((joinGroup (nodesOf db) [2] 3).run db).2.hasGrant 3 1 = true ∧
          ((joinGroup (nodesOf db) [2] 3).run db).2.rulesOf 3 1 = [])) = true := by decide +kernel
  obtain ⟨db, hdb, hcheck⟩ := (Option.any_eq_true _ _).mp hrun
  simp only [Bool.and_eq_true, decide_eq_true_eq] at hcheck
  obtain ⟨⟨⟨hclient, herr⟩, hrules⟩, hleft⟩ := hcheck
  refine ⟨db, hdb, listed_nodesOf db, settled_singleton _ 2, hclient, ?_, hrules, hleft⟩
  rintro ⟨db', hends, -⟩
  rw [Ends] at hends
  rw [hends] at herr
  exact absurd herr (by simp)

/-- A group that exits through the home server and may reach one address of it. -/
theorem joinGroup_exact_home : ∃ db,
    runAll apply Op.body (fun _ _ => true) (Db.boot demoHub "") (groupRun [.setGrant 2 4,
      .setGrantExit 2 4 true, .setGrantRules 2 4 [⟨"192.168.1.7/32", "tcp", 443, 0⟩]]) = some db ∧
    JoinsExactly db (nodesOf db) [2] 3 := by
  have hrun : ((runAll apply Op.body (fun _ _ => true) (Db.boot demoHub "") (groupRun [.setGrant 2 4,
      .setGrantExit 2 4 true, .setGrantRules 2 4 [⟨"192.168.1.7/32", "tcp", 443, 0⟩]])).any fun db =>
        decide (3 ∈ db.clients.map ClientRow.id) &&
          decide (Copyable db.toTables [2] 3 (groupGrants [2] (nodesOf db)))) = true := by decide +kernel
  obtain ⟨db, hdb, hcheck⟩ := (Option.any_eq_true _ _).mp hrun
  simp only [Bool.and_eq_true, decide_eq_true_eq] at hcheck
  exact ⟨db, hdb, (joinGroup_exact_iff (listed_nodesOf db) (settled_singleton _ 2) hcheck.1 (by decide)).mpr
    hcheck.2⟩

end Web
end BeautyAwg
