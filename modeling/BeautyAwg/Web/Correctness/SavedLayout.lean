import BeautyAwg.Web.Layout

/-!
# `Web.Correctness.SavedLayout`: what a save stores is what the page holds

One blob holds positions and groups, and four places write it. Three serialise both; the one that places a
new device sends the positions alone, and the groups of the page are gone from what is stored
(`deviceAdded_drops_groups`). A write is right exactly where it is one of the three, or the page holds no group
(`kept_iff`).

## Contents
- **Blob.** `parse_serialize_groups`; `parse_spread`: a blob without groups.
- **Invariant.** `Mirrored`: a due save reads the groups of the page.
- **Runs.** `saves_keep_groups_iff`.
-/

namespace BeautyAwg
namespace Web

open Json

/-! ## Blob -/

theorem keep_val {check : Json → Bool} (xs : List { v : Json // check v = true }) :
    keep check (xs.map Subtype.val) = xs := by
  induction xs with
  | nil => rfl
  | cons x xs ih =>
    rw [keep, List.map_cons, List.filterMap_cons, dif_pos x.property, ← keep, ih]

theorem groups_parseEntry (out : Layout) (p : String × Position) :
    (parseEntry out (p.1, p.2.val)).groups = out.groups := by
  obtain ⟨k, v, hv⟩ := p
  unfold parseEntry
  split
  · -- a position is no array
    cases v with
    | arr => exact absurd hv (by simp [isPosition])
    | null | bool | num | str | obj => rfl
  · rfl

/-- Positions leave the groups alone. -/
theorem groups_spread (positions : PosMap) (out : Layout) :
    ((spread positions).foldl parseEntry out).groups = out.groups := by
  induction positions generalizing out with
  | nil => rfl
  | cons p ps ih =>
    show (((spread ps)).foldl parseEntry (parseEntry out (p.1, p.2.val))).groups = out.groups
    rw [ih, groups_parseEntry]

theorem parse_spread (positions : PosMap) : (parseLayout (obj (spread positions))).groups = [] :=
  groups_spread positions _

/-- Where every groups entry is one array and there is one, it is what is read. -/
theorem groups_foldl {fields : List (String × Json)} {xs : List Json} {out : Layout}
    (hall : ∀ f ∈ fields, f.1 = groupsKey → f.2 = arr xs)
    (hgroups : out.groups = keep isGroup xs ∨ groupsKey ∈ fields.map Prod.fst) :
    (fields.foldl parseEntry out).groups = keep isGroup xs := by
  induction fields generalizing out with
  | nil => exact hgroups.resolve_right (by simp)
  | cons f fs ih =>
    refine ih (fun x hx => hall x (List.mem_cons_of_mem _ hx)) ?_
    by_cases hk : f.1 = groupsKey
    · have hf := hall f List.mem_cons_self hk
      left
      show (parseEntry out f).groups = _
      simp only [parseEntry, hk, if_true, hf]
    · refine hgroups.imp (fun h => ?_) fun h => ?_
      · rw [← h]
        simp only [parseEntry, hk, if_false]
        split <;> rfl
      · rw [List.map_cons, List.mem_cons] at h
        exact h.resolve_left (Ne.symm hk)

/-- **The groups come back** as they were. -/
theorem parse_serialize_groups (layout : Layout) : (parseLayout (serializeLayout layout)).groups = layout.groups := by
  unfold serializeLayout
  split
  · rename_i hnone
    rw [hnone]
    exact parse_spread _
  · have hfields : ((setField (spread layout.positions) groupsKey (arr (layout.groups.map Subtype.val))).foldl
        parseEntry ⟨[], []⟩).groups = keep isGroup (layout.groups.map Subtype.val) := by
      refine groups_foldl (fun f hf hk => ?_) (.inr (List.mem_map_of_mem (mem_setField_self _ _ _)))
      rcases mem_setField hf with rfl | ⟨-, hne⟩
      · rfl
      · exact absurd hk hne
    rw [keep_val] at hfields
    exact hfields

/-! ## Invariant -/

/-- Once the map is drawn the ref holds the groups of the page; a save is due only then. -/
structure Mirrored (p : Page) : Prop where
  ref : p.ready = true → p.groupsRef = p.groups
  drawn : p.ready = true → p.answered = true
  saving : p.saving = true → p.ready = true

/-- The blob that is sent, if one is, holds the groups of the page. -/
def Saved (r : Page × Option Json) : Prop := ∀ blob ∈ r.2, (parseLayout blob).groups = r.1.groups

variable {p : Page} {gs : List Group}

theorem saved_of_none {p : Page} : Saved (p, none) := fun _ h => absurd h (by simp)

theorem saved_saveLayout : Saved (sent (p.saveLayout none (some gs))) := by
  intro blob hblob
  obtain rfl := Option.some.inj hblob
  exact parse_serialize_groups _

theorem mirrored_saveLayout (h : Mirrored p) : Mirrored (p.saveLayout none (some gs)).1 :=
  ⟨fun _ => rfl, h.drawn, h.saving⟩

theorem mirrored_place {card : Card} {spot : XY} (h : Mirrored p) : Mirrored (p.place card spot) :=
  ⟨h.ref, h.drawn, h.saving⟩

theorem saved_clientDropped {clients : List String} {clientId : String} {spot : XY} {hit : Option String} :
    Saved (p.clientDropped clients clientId spot hit) := by
  unfold Page.clientDropped
  split
  · exact saved_of_none
  · split
    · split
      · exact saved_of_none
      · exact saved_saveLayout
    · exact saved_saveLayout
    · exact saved_of_none

theorem mirrored_clientDropped {clients : List String} {clientId : String} {spot : XY} {hit : Option String}
    (h : Mirrored p) : Mirrored (p.clientDropped clients clientId spot hit).1 := by
  unfold Page.clientDropped
  split
  · exact h
  · split
    · split
      · exact h
      · exact mirrored_saveLayout (mirrored_place h)
    · exact mirrored_saveLayout (mirrored_place h)
    · exact h

theorem mirrored_deviceAdded {created : Option String} (h : Mirrored p) : Mirrored (p.deviceAdded created).1 := by
  unfold Page.deviceAdded
  split
  · exact ⟨h.ref, h.drawn, h.saving⟩
  · exact h

/-- Every event keeps the invariant. -/
theorem mirrored_act {a : Action} {r : Page × Option Json} (hact : p.act a = some r) (h : Mirrored p) :
    Mirrored r.1 := by
  cases a with
  | loaded answer =>
    simp only [Page.act] at hact
    split at hact
    · exact absurd hact (by simp)
    · rename_i hnot
      -- the answer comes once, before anything is drawn
      have hdraw : p.ready = true → False := fun hready => hnot (h.drawn hready)
      split at hact
      all_goals
        obtain rfl := Option.some.inj hact
        exact ⟨fun hready => (hdraw hready).elim, fun _ => rfl, h.saving⟩
  | render =>
    obtain rfl := Option.some.inj hact
    exact ⟨fun _ => rfl, fun hready => hready, fun hsaving => h.drawn (h.saving hsaving)⟩
  | contextMenu spot =>
    obtain rfl := Option.some.inj hact
    exact ⟨h.ref, h.drawn, h.saving⟩
  | dragStop cards card spot clients hit =>
    simp only [Page.act] at hact
    split at hact
    · rename_i hready
      -- dragging needs the cards to be drawn
      have hpersist : Mirrored (p.persist cards) := ⟨h.ref, h.drawn, fun _ => hready⟩
      split at hact
      · obtain rfl := Option.some.inj hact
        exact mirrored_clientDropped hpersist
      · obtain rfl := Option.some.inj hact
        exact hpersist
    · exact absurd hact (by simp)
  | timer =>
    simp only [Page.act] at hact
    split at hact
    · obtain rfl := Option.some.inj hact
      exact ⟨h.ref, h.drawn, fun hsaving => absurd hsaving (by simp)⟩
    · exact absurd hact (by simp)
  | createGroup id =>
    obtain rfl := Option.some.inj hact
    unfold Page.createGroup
    refine mirrored_saveLayout ?_
    cases p.dropAt with
    | none => exact ⟨h.ref, h.drawn, h.saving⟩
    | some spot => exact ⟨h.ref, h.drawn, h.saving⟩
  | updateGroup id patch =>
    obtain rfl := Option.some.inj hact
    exact mirrored_saveLayout h
  | dissolveGroup id =>
    obtain rfl := Option.some.inj hact
    exact mirrored_saveLayout h
  | deviceAdded created =>
    obtain rfl := Option.some.inj hact
    exact mirrored_deviceAdded h

/-! ## Runs -/

/-- What was sent holds the groups of the page at that moment. -/
def Moment.Kept (m : Moment) : Prop := Saved (m.after, m.write)

/-- A device that is added at a spot is added while the page holds no group. -/
def Moment.Careful (m : Moment) : Prop :=
  match m.action, m.before.dropAt with
  | .deviceAdded (some _), some _ => m.before.groups = []
  | _, _ => True

instance (m : Moment) : Decidable m.Careful := by
  unfold Moment.Careful
  split <;> infer_instance

theorem saved_deviceAdded {created : Option String} :
    Saved (p.deviceAdded created) ↔ (created.isSome = true → p.dropAt.isSome = true → p.groups = []) := by
  unfold Page.deviceAdded
  cases created with
  | none => simp [Saved]
  | some clientId =>
    cases p.dropAt with
    | none => simp [Saved]
    | some spot =>
      simp only [Saved, Option.mem_def, Option.some.injEq, forall_eq', parse_spread, Option.isSome_some, true_imp_iff]
      exact eq_comm

/-- **One write.** It is right except where a device is added at a spot beside groups. -/
theorem kept_iff {m : Moment} (hact : m.before.act m.action = some (m.after, m.write)) (h : Mirrored m.before) :
    m.Kept ↔ m.Careful := by
  obtain ⟨p, a, after, write⟩ := m
  simp only [Moment.Kept, Moment.Careful] at hact h ⊢
  -- one action alone writes the layout without its groups
  have hright : Saved (after, write) → (Saved (after, write) ↔ True) := fun hs => iff_of_true hs trivial
  cases a with
  | loaded answer =>
    refine hright ?_
    simp only [Page.act] at hact
    split at hact
    · exact absurd hact (by simp)
    · split at hact
      all_goals
        rw [← Option.some.inj hact]
        exact saved_of_none
  | render =>
    rw [← Option.some.inj hact]
    exact iff_of_true saved_of_none trivial
  | contextMenu spot =>
    rw [← Option.some.inj hact]
    exact iff_of_true saved_of_none trivial
  | dragStop cards card spot clients hit =>
    refine hright ?_
    simp only [Page.act] at hact
    split at hact
    · split at hact
      · rw [← Option.some.inj hact]
        exact saved_clientDropped
      · rw [← Option.some.inj hact]
        exact saved_of_none
    · exact absurd hact (by simp)
  | timer =>
    refine hright ?_
    simp only [Page.act] at hact
    split at hact
    · rename_i hsaving
      rw [← Option.some.inj hact]
      intro blob hblob
      obtain rfl := Option.some.inj hblob
      rw [parse_serialize_groups]
      -- the timer writes the reference, which mirrors the groups
      exact h.ref (h.saving hsaving)
    · exact absurd hact (by simp)
  | createGroup id =>
    rw [← Option.some.inj hact]
    exact iff_of_true saved_saveLayout trivial
  | updateGroup id patch =>
    rw [← Option.some.inj hact]
    exact iff_of_true saved_saveLayout trivial
  | dissolveGroup id =>
    rw [← Option.some.inj hact]
    exact iff_of_true saved_saveLayout trivial
  | deviceAdded created =>
    rw [← Option.some.inj hact, saved_deviceAdded]
    cases created with
    | none => simp
    | some clientId => cases hdrop : p.dropAt <;> simp

theorem trace_moment {actions : List Action} {moments : List Moment} (h : trace p actions = some moments)
    (hinv : Mirrored p) :
    ∀ m ∈ moments, m.before.act m.action = some (m.after, m.write) ∧ Mirrored m.before := by
  induction actions generalizing p moments with
  | nil =>
    obtain rfl := Option.some.inj h
    exact fun m hm => absurd hm List.not_mem_nil
  | cons a as ih =>
    simp only [trace, Option.bind_eq_some_iff, Option.map_eq_some_iff] at h
    obtain ⟨⟨after, write⟩, hact, rest, hrest, rfl⟩ := h
    intro m hm
    rcases List.mem_cons.mp hm with rfl | hm
    · exact ⟨hact, hinv⟩
    · exact ih hrest (mirrored_act hact hinv) m hm

/-- **Saves keep the groups** throughout a run exactly where no device is added at a spot of the canvas while
    the page holds a group. -/
theorem saves_keep_groups_iff {actions : List Action} {moments : List Moment}
    (h : trace Page.start actions = some moments) : (∀ m ∈ moments, m.Kept) ↔ ∀ m ∈ moments, m.Careful := by
  have hstart : Mirrored Page.start :=
    ⟨fun h => absurd h (by simp [Page.start]), fun h => absurd h (by simp [Page.start]),
      fun h => absurd h (by simp [Page.start])⟩
  have hmoments := trace_moment h hstart
  exact forall₂_congr fun m hm => kept_iff (hmoments m hm).1 (hmoments m hm).2

/-- A device is added before there is a group; then one is made, coloured and dragged. -/
def mapSession : List Action :=
  [.loaded none, .render, .contextMenu ⟨10, 10⟩, .deviceAdded (some "phone"), .createGroup "g1",
    .updateGroup "g1" (.color "#fff"),
    .dragStop [(.group "g1", ⟨5, 5⟩)] (.group "g1") ⟨5, 5⟩ ["phone"] none, .timer]

/-- A session on the map, its saves included. -/
theorem saves_keep_groups_session :
    ∃ moments, trace Page.start mapSession = some moments ∧ ∀ m ∈ moments, m.Kept := by
  have hcareful : ∀ m ∈ (trace Page.start mapSession).get (by decide +kernel), m.Careful := by decide +kernel
  exact ⟨_, (Option.some_get (by decide +kernel)).symm,
    (saves_keep_groups_iff (Option.some_get (by decide +kernel)).symm).mpr hcareful⟩

/-- A device added from the canvas menu beside a group: the groups are gone from what is stored. -/
theorem deviceAdded_drops_groups :
    ∃ moments, trace Page.start [.loaded none, .render, .createGroup "g1", .contextMenu ⟨10, 10⟩,
      .deviceAdded (some "phone")] = some moments ∧ ∃ m ∈ moments, ∃ blob ∈ m.write,
        (parseLayout blob).groups = [] ∧ m.after.groups.map Group.id = ["g1"] ∧ ¬ m.Kept := by
  refine ⟨_, rfl, _, List.mem_of_getElem? (i := 4) rfl, obj (spread [("c:phone", XY.position ⟨10, 10⟩)]), rfl,
    parse_spread _, rfl, ?_⟩
  intro hkept
  have hdropped : ([] : List Group) = [newGroup "g1" "Group 1"] := (parse_spread _).symm.trans (hkept _ rfl)
  exact absurd hdropped (by simp)

end Web
end BeautyAwg
