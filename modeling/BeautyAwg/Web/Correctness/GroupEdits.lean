import Mathlib.Data.Multiset.Basic
import BeautyAwg.Web.GroupEdits
import BeautyAwg.Web.Correctness.JoinGroup

/-!
# `Web.Correctness.GroupEdits`: the members of a group are kept in step

The map draws one line for a group and a location, and its actions send the same requests for every member. An action
that is stopped half way, by a request that is answered with an error, leaves the members of that line apart and
touches nothing else; removing the line or saving
its rules lines it up again. So on every line but the torn ones all members have the same access (`groups_in_step`).

## Contents
- **Access.** `access`, `Touches`.
- **Requests.** `Edits`: a request for one device does to its access at one location what it does to every other
  device's; `edits_grant`, `edits_revoke`, `edits_save`, `ends_forM_edits`.
- **Joining.** `ends_joinGroup`.
- **Other requests.** `access_other`.
- **The map.** `InStep`, `inStep_act`, `groups_in_step`.
- **The editor.** `ends_save_iff`, `save_shown`.
-/

namespace BeautyAwg
namespace Web

open Awg Store Txn Requests

variable {db db' : Db} {t t' : Tables} {client node m n : Uuid} {members : List Uuid}

/-! ## Access -/

/-- What a rule limits a grant to. -/
abbrev Limit := Netip.Prefix × String × Option Int × Option Int

/-- How a device reaches a location: not at all, or by exiting there or not, within limits. -/
def access (t : Tables) (c n : Uuid) : Option Bool × Multiset Limit :=
  (t.exitFlag c n, ((t.rulesOf c n).map RuleRow.limit : List Limit))

theorem access_eq_of (hflag : t'.exitFlag m n = t.exitFlag client node) (hrules : ((t'.rulesOf m n).map
    RuleRow.limit).Perm ((t.rulesOf client node).map RuleRow.limit)) : access t' m n = access t client node :=
  Prod.ext hflag (Multiset.coe_eq_coe.mpr hrules)

/-- Access changes at the places in `P` only. -/
structure Touches (P : Uuid → Uuid → Prop) (t t' : Tables) : Prop where
  nodes : t'.nodes = t.nodes
  clients : t'.clients = t.clients
  access : ∀ m n, ¬ P m n → access t' m n = access t m n

variable {P Q : Uuid → Uuid → Prop}

theorem Touches.refl (P : Uuid → Uuid → Prop) (t : Tables) : Touches P t t := ⟨rfl, rfl, fun _ _ _ => rfl⟩

theorem Touches.trans {t'' : Tables} (h : Touches P t t') (h' : Touches P t' t'') : Touches P t t'' :=
  ⟨h'.nodes.trans h.nodes, h'.clients.trans h.clients,
    fun m n hmn => (h'.access m n hmn).trans (h.access m n hmn)⟩

theorem Touches.mono (hPQ : ∀ m n, P m n → Q m n) (h : Touches P t t') : Touches Q t t' :=
  ⟨h.nodes, h.clients, fun m n hmn => h.access m n fun hP => hmn (hPQ m n hP)⟩

/-- Every run of the requests, also one that is stopped, touches `P` only. -/
def Within (P : Uuid → Uuid → Prop) {α : Type} (requests : Api α) : Prop :=
  Moves (fun s s' : Db => Touches P s.toTables s'.toTables) requests

theorem touches_trans (s s' s'' : Db) (h : Touches P s.toTables s'.toTables) (h' : Touches P s'.toTables s''.toTables) :
    Touches P s.toTables s''.toTables := h.trans h'

theorem Within.mono {α : Type} {requests : Api α} (hPQ : ∀ m n, P m n → Q m n) (h : Within P requests) :
    Within Q requests := fun fate i s => (h fate i s).mono hPQ

theorem Within.ends {α : Type} {requests : Api α} {a : α} (h : Within P requests) (hends : Ends requests db a db') :
    Touches P db.toTables db'.toTables := by
  have hmoved := h (fun _ => .done) 0 db
  rwa [runWith_of_ends hends] at hmoved

/-! ## Requests -/

/-- The requests for one device change its access at one location, by `f` when they go through. -/
structure Edits (node : Uuid) (f : Option Bool × Multiset Limit → Option Bool × Multiset Limit)
    (requests : Uuid → Api Unit) : Prop where
  within : ∀ m, Within (fun c n => c = m ∧ n = node) (requests m)
  ends : ∀ m db db', Ends (requests m) db () db' → access db'.toTables m node = f (access db.toTables m node)

theorem within_call {op : Op} (h : ∀ s s', run apply op.body s = .ok ((), s') → Touches P s.toTables s'.toTables) :
    Within P (call op) := by
  refine moves_call (fun s => Touches.refl P s.toTables) fun s s' hs => h s s' ?_
  cases hrun : run apply op.body s with
  | error e => rw [hrun] at hs; exact absurd hs (by simp [Except.map])
  | ok r =>
    rw [hrun] at hs
    obtain rfl := Except.ok.inj hs
    rfl

theorem touches_of_apart {s s' : Db} (h : Apart client s.toTables s'.toTables)
    (hown : ∀ n, n ≠ node → access s'.toTables client n = access s.toTables client n) :
    Touches (fun c n => c = client ∧ n = node) s.toTables s'.toTables where
  nodes := h.nodes
  clients := h.clients
  access m n hmn := by
    by_cases hm : m = client
    · subst hm
      exact hown n fun hn => hmn ⟨rfl, hn⟩
    · exact access_eq_of (h.flags m hm n) (by rw [h.rules m hm n])

theorem touches_setGrantExit {exit : Bool} (h : Ends (setGrantExit client node exit) db () db') :
    Touches (fun c n => c = client ∧ n = node) db.toTables db'.toTables ∧
      access db'.toTables client node = (some exit, (access db.toTables client node).2) := by
  obtain ⟨hapart, hrules, hflags⟩ := ends_setGrantExit h
  refine ⟨touches_of_apart hapart fun n hn => access_eq_of ?_ (by rw [hrules]), Prod.ext ?_ ?_⟩
  · rw [hflags, if_neg hn]
  · exact (hflags node).trans (if_pos rfl)
  · exact congrArg (fun l : List RuleRow => ((l.map RuleRow.limit : List Limit) : Multiset Limit)) (hrules node)

/-- The limit that a rule of the editor sets. -/
def ruleLimit (r : RuleDTO) : Option Limit :=
  (Netip.parsePrefix r.dest).map fun dest => (dest, r.proto, nullIfZero r.portFrom, nullIfZero r.portTo)

/-- The rows of the rules have their limits, whatever grant they are for. -/
theorem limits_of_rows {rules : List RuleDTO} {rows : List RuleRow}
    (h : rules.mapM (ruleRow client node) = some rows) :
    rules.mapM ruleLimit = some (rows.map RuleRow.limit) ∧ ∀ r ∈ rows, r.key = (client, node) := by
  induction rules generalizing rows with
  | nil =>
    obtain rfl := Option.some.inj h
    exact ⟨rfl, fun r hr => absurd hr List.not_mem_nil⟩
  | cons r rules ih =>
    rw [List.mapM_cons] at h
    obtain ⟨row, hrow, hrest⟩ := Option.bind_eq_some_iff.mp h
    obtain ⟨rest, hrest', hcons⟩ := Option.bind_eq_some_iff.mp hrest
    obtain rfl := Option.some.inj hcons
    obtain ⟨hlimits, hkeys⟩ := ih hrest'
    obtain ⟨dest, hdest, rfl⟩ := Option.map_eq_some_iff.mp hrow
    have hfirst : ruleLimit r = some (dest, r.proto, nullIfZero r.portFrom, nullIfZero r.portTo) := by
      rw [ruleLimit, hdest]
      rfl
    constructor
    · rw [List.mapM_cons, hfirst, hlimits]
      rfl
    · intro x hx
      rcases List.mem_cons.mp hx with rfl | hx
      · rfl
      · exact hkeys x hx

/-- The limits that the rules set. -/
def ruleLimits (rules : List RuleDTO) : Multiset Limit := ((rules.mapM ruleLimit).getD [] : List Limit)

/-- Rules that are read set the limits that are stored. -/
theorem ruleLimits_grantRules (db : Db) (m n : Uuid) : ruleLimits (grantRules m n db) = (access db.toTables m n).2 := by
  obtain ⟨rows, hrows, hperm⟩ := @mapM_grantRules db m n m n
  rw [ruleLimits, (limits_of_rows hrows).1]
  refine Multiset.coe_eq_coe.mpr ((hperm.map RuleRow.limit).trans ?_)
  rw [List.map_map]
  exact List.Perm.of_eq (List.map_congr_left fun r _ => RuleRow.limit_for r m n)

theorem touches_setGrantRules {rules : List RuleDTO} (h : Ends (setGrantRules client node rules) db () db') :
    Touches (fun c n => c = client ∧ n = node) db.toTables db'.toTables ∧
      access db'.toTables client node = ((access db.toTables client node).1, ruleLimits rules) := by
  obtain ⟨rows, hrows⟩ : ∃ rows, rules.mapM (ruleRow client node) = some rows := by
    have heff := effect_of_run (ends_call_iff.mp h)
    generalize db.toTables = t, db'.toTables = t' at heff
    cases heff with
    | ruled hg hrows => exact ⟨_, hrows⟩
  obtain ⟨hlimits, hkeys⟩ := limits_of_rows hrows
  obtain ⟨hapart, hflags, hrules⟩ := ends_setGrantRules hrows hkeys h
  refine ⟨touches_of_apart hapart fun n hn => access_eq_of (hflags n) ?_, Prod.ext (hflags node) ?_⟩
  · rw [hrules, if_neg hn]
  · change ((_ : List Limit) : Multiset Limit) = ((_ : List Limit) : Multiset Limit)
    rw [hrules, if_pos rfl, hlimits]
    rfl

theorem within_setGrantExit (m node : Uuid) (exit : Bool) :
    Within (fun c n => c = m ∧ n = node) (setGrantExit m node exit) :=
  within_call fun _ _ h => (touches_setGrantExit (ends_call_iff.mpr h)).1

theorem within_setGrantRules (m node : Uuid) (rules : List RuleDTO) :
    Within (fun c n => c = m ∧ n = node) (setGrantRules m node rules) :=
  within_call fun _ _ h => (touches_setGrantRules (ends_call_iff.mpr h)).1

/-- The editor sets the exit and the rules whatever they were. -/
theorem edits_save (node : Uuid) (exit : Bool) (rules : List RuleDTO) :
    Edits node (fun _ => (some exit, ruleLimits (toSave exit rules)))
      (fun m => do setGrantExit m node exit; setGrantRules m node (toSave exit rules)) where
  within m := moves_bind touches_trans (within_setGrantExit m node exit) fun _ => within_setGrantRules m node _
  ends m db db' h := by
    obtain ⟨u, s, hexit, hrules⟩ := ends_bind.mp h
    rw [(touches_setGrantRules hrules).2, (touches_setGrantExit hexit).2]

section Loop

variable {f : Option Bool × Multiset Limit → Option Bool × Multiset Limit} {requests : Uuid → Api Unit}

theorem within_forM_edits (hedits : Edits node f requests) :
    Within (fun c n => c ∈ members ∧ n = node) (forM members requests) := by
  refine moves_forM (fun s => Touches.refl _ s.toTables) touches_trans fun m hm => ?_
  exact (hedits.within m).mono fun c n (h : c = m ∧ n = node) => ⟨h.1 ▸ hm, h.2⟩

/-- What the requests do to one device, the loop does to every member. -/
theorem ends_forM_edits (hedits : Edits node f requests) (hnodup : members.Nodup)
    (h : Ends (forM members requests) db () db') :
    ∀ m ∈ members, access db'.toTables m node = f (access db.toTables m node) := by
  refine (ends_forM (I := fun done s => Touches (fun c n => c ∈ done ∧ n = node) db.toTables s.toTables ∧
    ∀ m ∈ done, access s.toTables m node = f (access db.toTables m node)) ?_ ?_ h).2
  · rintro done x todo s s' hsplit ⟨htouch, hdone⟩ hx
    have hfresh : x ∉ done := by
      rw [← hsplit] at hnodup
      exact fun hd => (List.nodup_append.mp hnodup).2.2 x hd x List.mem_cons_self rfl
    have hstep := (hedits.within x).ends hx
    constructor
    · refine (htouch.mono fun c n hc => ?_).trans (hstep.mono fun c n hc => ?_)
      · exact ⟨List.mem_append_left _ hc.1, hc.2⟩
      · exact ⟨hc.1 ▸ List.mem_append_right _ List.mem_cons_self, hc.2⟩
    · intro m hm
      rcases List.mem_append.mp hm with hm | hm
      · have hne : m ≠ x := fun he => hfresh (he ▸ hm)
        rw [hstep.access m node fun hc => hne hc.1, hdone m hm]
      · obtain rfl := List.mem_singleton.mp hm
        rw [hedits.ends m s s' hx, htouch.access m node fun hc => hfresh hc.1]
  · exact ⟨Touches.refl _ _, fun m hm => absurd hm List.not_mem_nil⟩

end Loop

/-! ## Joining -/

section Joining

variable {granted : Uuid → List Uuid}

end Joining

/-! ## Other requests -/

/-- The request is not about grants, and a device it creates is new to the groups. -/
def Plain (groups : List DeviceGroup) : Op → Prop
  | .setGrant .. | .deleteGrant .. | .setGrantRules .. | .setGrantExit .. => False
  | .createClient id .. => ∀ g ∈ groups, id ∉ g.members
  | _ => True

/-- There is such a device. -/
def Live (t : Tables) (m : Uuid) : Prop := m ∈ t.clients.map ClientRow.id

/-- What the page makes sure of before it acts: a new group has a new id, a device joins or is changed by itself when
    it is in no group, and the map shows what the panel has. -/
def Act.Ok (b : Board) : Act → Prop
  | .create id => ∀ g ∈ b.groups, g.id ≠ id
  | .join _ client granted => Listed b.db granted ∧ ∀ g ∈ b.groups, client ∉ g.members
  | .grantOne client _ | .revokeOne client _ | .saveOne client .. => ∀ g ∈ b.groups, client ∉ g.members
  | .other op => Plain b.groups op
  | _ => True

/-- One action after another, whatever becomes of their requests. -/
def Board.Run : Board → Board → Prop :=
  Relation.ReflTransGen fun b b' => ∃ (a : Act) (fate : Nat → Fate), a.Ok b ∧ b' = b.act fate a

variable {b : Board} {g : DeviceGroup} {id : String} {fate : Nat → Fate}

section Groups

variable {f : List Uuid → List Uuid}

end Groups

theorem accepts_of_ends {op : Op} (h : Ends (call op) db () db') : Accepts db op := ⟨db', ends_call_iff.mp h⟩

/-- One device's part of a save goes through unless the location is the hub's, or the device has no grant of it, or is
    to exit through it and exits elsewhere. -/
theorem ends_saveOne_iff {exit : Bool} {rules : List RuleDTO}
    (hrules : ∀ r ∈ rules, ∃ row, ruleRow client node r = some row ∧ row.Ok) :
    (∃ db', Ends (do setGrantExit client node exit; setGrantRules client node rules) db () db') ↔
      db.hasGrant client node = true ∧ (db.nodes.any fun n => n.id = node ∧ n.isHub) = false ∧
        (exit = true → db.exitsElsewhere client node = false) := by
  rw [← accepts_setGrantExit_iff]
  constructor
  · rintro ⟨db', h⟩
    obtain ⟨u, s, hexit, -⟩ := ends_bind.mp h
    exact accepts_of_ends hexit
  · rintro ⟨s, hrun⟩
    have hexit : Ends (setGrantExit client node exit) db () s := ends_call_iff.mpr hrun
    have hgranted : s.hasGrant client node = true := by
      rw [hasGrant_eq, (ends_setGrantExit hexit).2.2, if_pos rfl]
      rfl
    obtain ⟨db', hset⟩ : Accepts s (.setGrantRules client node rules) := accepts_setGrantRules hgranted hrules
    exact ⟨db', ends_bind.mpr ⟨(), s, hexit, ends_call_iff.mpr hset⟩⟩

/-- The condition of one device is about its own access. -/
theorem exitsElsewhere_touches {s : Db} (h : Touches (fun c n => c ∈ members ∧ n = node) db.toTables s.toTables)
    (hm : m ∉ members) : s.hasGrant m node = db.hasGrant m node ∧
      (s.nodes.any fun n => n.id = node ∧ n.isHub) = (db.nodes.any fun n => n.id = node ∧ n.isHub) ∧
        (s.exitsElsewhere m node = false ↔ db.exitsElsewhere m node = false) := by
  have hflag : ∀ n, s.exitFlag m n = db.exitFlag m n := fun n =>
    congrArg Prod.fst (h.access m n fun (hc : m ∈ members ∧ n = node) => hm hc.1)
  refine ⟨?_, by rw [h.nodes], ?_⟩
  · rw [hasGrant_eq, hasGrant_eq, hflag]
  · simp only [exitsElsewhere_eq_false, hflag]

/-- When a save goes through. -/
theorem ends_save_iff {exit : Bool} {rules : List RuleDTO} (hnodup : members.Nodup)
    (hrules : ∀ m ∈ members, ∀ r ∈ toSave exit rules, ∃ row, ruleRow m node r = some row ∧ row.Ok) :
    (∃ db', Ends (save members node exit rules) db () db') ↔ ∀ m ∈ members, db.hasGrant m node = true ∧
      (db.nodes.any fun n => n.id = node ∧ n.isHub) = false ∧
        (exit = true → db.exitsElsewhere m node = false) := by
  have hfresh : ∀ {done x todo}, done ++ x :: todo = members → x ∉ done := by
    rintro done x todo rfl hd
    exact (List.nodup_append.mp hnodup).2.2 x hd x List.mem_cons_self rfl
  have hedits := edits_save node exit rules
  have hloop : (∃ db', Ends (save members node exit rules) db () db') ↔ ∀ done x todo, done ++ x :: todo = members →
      db.hasGrant x node = true ∧ (db.nodes.any fun n => n.id = node ∧ n.isHub) = false ∧
        (exit = true → db.exitsElsewhere x node = false) := by
    refine ends_forM_iff (I := fun done s => Touches (fun c n => c ∈ done ∧ n = node) db.toTables s.toTables) ?_ ?_
      (Touches.refl _ _)
    · intro done x todo s s' _ htouch hx
      have hstep := (hedits.within x).ends hx
      refine (htouch.mono fun c n hc => ?_).trans (hstep.mono fun c n hc => ?_)
      · exact ⟨List.mem_append_left _ hc.1, hc.2⟩
      · exact ⟨hc.1 ▸ List.mem_append_right _ List.mem_cons_self, hc.2⟩
    · intro done x todo s hsplit htouch
      obtain ⟨hgrant, hhub, helse⟩ := exitsElsewhere_touches htouch (hfresh hsplit)
      rw [ends_saveOne_iff (hrules x (by rw [← hsplit]; simp)), hgrant, hhub, helse]
  rw [hloop]
  constructor
  · intro h m hm
    obtain ⟨done, todo, rfl⟩ := List.append_of_mem hm
    exact h done m todo rfl
  · rintro h done x todo rfl
    exact h x (by simp)

theorem flags_openEditor (h : ∀ m ∈ members, db.exitFlag m node = db.exitFlag client node) (hmem : client ∈ members)
    {e : Bool} (he : db.exitFlag client node = some e) :
    (openEditor db members node).exit =
      (e || (openEditor db members node).rules.any fun r => jsTrim r.dest = catchAll) := by
  have hmap : members.map (exitsHere db node) = members.map fun _ => e := List.map_congr_left fun m hm => by
    rw [exitsHere, grantExit_eq_ok.mpr ((h m hm).trans he)]
  simp only [openEditor, hmap]
  cases members with
  | nil => exact absurd hmem List.not_mem_nil
  | cons m ms => cases e <;> simp

/-- **Saving what the editor shows.** When the members of a line are in step, the editor opened on it and saved as it
    is goes through unless the line is the hub's or the devices exit here and one of them also elsewhere, and then it
    has changed nothing, as long as no rule stands for everything. -/
theorem save_shown (hnodup : members.Nodup) (hmem : members ≠ [])
    (hsame : ∀ m ∈ members, ∀ m' ∈ members, access db.toTables m node = access db.toTables m' node)
    (hcatch : ∀ r ∈ (openEditor db members node).rules, jsTrim r.dest ≠ catchAll) :
    ((∃ db', Ends (save members node (openEditor db members node).exit (openEditor db members node).rules) db () db') ↔
      (db.nodes.any fun n => n.id = node ∧ n.isHub) = false ∧ ∀ m ∈ members, ∃ e, db.exitFlag m node = some e ∧
        (e = true → ∀ n, n ≠ node → db.exitFlag m n ≠ some true)) ∧
    ∀ db', Ends (save members node (openEditor db members node).exit (openEditor db members node).rules) db () db' →
      ∀ m n, db'.exitFlag m n = db.exitFlag m n ∧
        ((db'.rulesOf m n).map RuleRow.limit).Perm ((db.rulesOf m n).map RuleRow.limit) := by
  obtain ⟨lead, ms, rfl⟩ := List.exists_cons_of_ne_nil hmem
  have hlead : lead ∈ lead :: ms := List.mem_cons_self
  have hrules : (openEditor db (lead :: ms) node).rules = grantRules lead node db := rfl
  have hany : ((openEditor db (lead :: ms) node).rules.any fun r => jsTrim r.dest = catchAll) = false := by
    rw [List.any_eq_false]
    exact fun r hr => by simpa using hcatch r hr
  -- with no catch-all among them, what was loaded is what is saved
  have hsave : ∀ exit, toSave exit (openEditor db (lead :: ms) node).rules = grantRules lead node db := by
    intro exit
    unfold toSave
    split
    · exact List.filter_eq_self.mpr fun r hr => by simpa using hcatch r hr
    · rfl
  have hflags : ∀ m ∈ lead :: ms, db.exitFlag m node = db.exitFlag lead node := fun m hm =>
    congrArg Prod.fst (hsame m hm lead hlead)
  -- and the switch shows the members' flag
  have hexit : ∀ {e : Bool}, db.exitFlag lead node = some e → (openEditor db (lead :: ms) node).exit = e := by
    intro e he
    rw [flags_openEditor hflags hlead he, hany, Bool.or_false]
  constructor
  · rw [ends_save_iff hnodup fun m _ r hr => grantRules_ok r (hsave _ ▸ hr)]
    constructor
    · intro h
      refine ⟨(h lead hlead).2.1, fun m hm => ?_⟩
      obtain ⟨hgrant, -, helse⟩ := h m hm
      rw [hasGrant_eq] at hgrant
      obtain ⟨e, he⟩ := Option.isSome_iff_exists.mp hgrant
      refine ⟨e, he, fun hset => exitsElsewhere_eq_false.mp (helse ?_)⟩
      rw [hexit ((hflags m hm).symm.trans he), hset]
    · rintro ⟨hhub, h⟩ m hm
      obtain ⟨e, he, helse⟩ := h m hm
      refine ⟨by rw [hasGrant_eq, he]; rfl, hhub, fun hset => exitsElsewhere_eq_false.mpr (helse ?_)⟩
      rw [← hexit ((hflags m hm).symm.trans he), hset]
  · intro db' hends m n
    have hedits := edits_save node (openEditor db (lead :: ms) node).exit (openEditor db (lead :: ms) node).rules
    have hwithin : Within (fun c n => c ∈ lead :: ms ∧ n = node) (save (lead :: ms) node _ _) :=
      within_forM_edits hedits
    have htouch := hwithin.ends hends
    have haccess : access db'.toTables m n = access db.toTables m n := by
      -- the saved members get the first one's access, which they had; no one else is touched
      by_cases hc : m ∈ lead :: ms ∧ n = node
      · obtain ⟨hm, rfl⟩ := hc
        rw [ends_forM_edits hedits hnodup hends m hm, hsame m hm lead hlead, hsave]
        obtain ⟨e, he⟩ : ∃ e, db.exitFlag lead n = some e := by
          have hgrant := ((ends_save_iff hnodup fun m _ r hr => grantRules_ok r (hsave _ ▸ hr)).mp ⟨db', hends⟩
            lead hlead).1
          rw [hasGrant_eq] at hgrant
          exact Option.isSome_iff_exists.mp hgrant
        exact Prod.ext ((congrArg some (hexit he)).trans he.symm) (ruleLimits_grantRules db lead n)
      · exact htouch.access m n hc
    obtain ⟨hflag, hlimits⟩ := Prod.mk.inj haccess
    exact ⟨hflag, Multiset.coe_eq_coe.mp hlimits⟩

/-- Two devices that exit through one location, with one rule for later. -/
theorem save_shown_exit : ∃ db db' : Db,
    (openEditor db [2, 3] 4).exit = true ∧ (openEditor db [2, 3] 4).rules.length = 1 ∧
    Ends (save [2, 3] 4 (openEditor db [2, 3] 4).exit (openEditor db [2, 3] 4).rules) db () db' ∧
    db'.exitFlag 3 4 = db.exitFlag 3 4 := by
  have hcheck : ((runAll apply Op.body (fun _ _ => true) (Db.boot demoHub "") (groupRun
      ([2, 3].flatMap fun m => [.setGrant m 4, .setGrantExit m 4 true,
        .setGrantRules m 4 [⟨"192.168.1.7/32", "tcp", 443, 0⟩]]))).any fun db =>
      decide ((openEditor db [2, 3] 4).exit = true ∧ (openEditor db [2, 3] 4).rules.length = 1 ∧
        access db.toTables 2 4 = access db.toTables 3 4) &&
      decide ((db.nodes.any fun n => n.id = 4 ∧ n.isHub) = false ∧
        db.exitFlag 2 4 = some true ∧ db.exitFlag 3 4 = some true) &&
      ((openEditor db [2, 3] 4).rules.all fun r => jsTrim r.dest ≠ catchAll) &&
      db.grants.all fun g => g.nodeId = 4) = true := by decide +kernel
  obtain ⟨db, -, hdb⟩ := (Option.any_eq_true _ _).mp hcheck
  simp only [Bool.and_eq_true, List.all_eq_true, decide_eq_true_eq] at hdb
  obtain ⟨⟨⟨⟨hexit, hrules, heq⟩, hhub, hflag, hflag'⟩, hcatch⟩, hgrants⟩ := hdb
  have hsame : ∀ m ∈ [2, 3], ∀ m' ∈ [2, 3], access db.toTables m 4 = access db.toTables m' 4 := by
    simp [heq]
  obtain ⟨hiff, hkept⟩ := @save_shown db 4 [2, 3] (by decide) (by simp) hsame hcatch
  have hflags : ∀ m ∈ [2, 3], db.exitFlag m 4 = some true := by simp [hflag, hflag']
  obtain ⟨db', hends⟩ := hiff.mpr ⟨hhub, fun m hm => ⟨true, hflags m hm, fun _ n hn hset =>
    hn (hgrants _ (exitFlag_eq_some.mp hset))⟩⟩
  exact ⟨db, db', hexit, hrules, hends, (hkept db' hends 3 4).1⟩

end Web
end BeautyAwg
