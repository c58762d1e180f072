import BeautyAwg.Web.Correctness.SavedLayout
import BeautyAwg.Web.LayoutBlob
import Mathlib.Data.List.Nodup

/-!
# `Web.Correctness.LayoutBlob`: the layout's blob comes back

Reading a blob never throws, keeps well-formed entries of the blob and no others, and what is written from a layout is
read back as that layout: `layout_round_trip`.

## Contents
- **No throw.** `isPosition_ok`, `isGroup_ok`, `parseLayout_ok`: the reader that may throw is the one on proven
  shapes.
- **Round trip.** `parse_serialize`.
- **What is kept.** `ParsedFrom`, kept by every entry.
-/

namespace BeautyAwg
namespace Web

open Json JsValue

/-! ## No throw -/

theorem isPosition_ok (v : Json) : Blob.isPosition (some v) = .ok (isPosition v) := by
  unfold Blob.isPosition
  rcases object_cases v with ⟨hno, hobj, -⟩ | ⟨hyes, hv⟩
  · rw [if_pos hno]
    cases v with
    | obj fields => exact absurd rfl (hobj fields)
    | null | bool | num | str | arr => rfl
  · rw [if_neg hyes]
    rcases hv with ⟨fields, rfl⟩ | ⟨xs, rfl⟩
    · simp only [JsValue.get, isPosition, bind, Except.bind]
      cases fields.lookup "x" with
      | none => rfl
      | some x =>
        cases x with
        | num => cases fields.lookup "y" with
          | none => rfl
          | some y => cases y <;> rfl
        | null | bool | str | arr | obj => rfl
    · rfl

theorem isGroup_ok (v : Json) : Blob.isGroup (some v) = .ok (isGroup v) := by
  unfold Blob.isGroup
  rcases object_cases v with ⟨hno, hobj, -⟩ | ⟨hyes, hv⟩
  · rw [if_pos hno]
    cases v with
    | obj fields => exact absurd rfl (hobj fields)
    | null | bool | num | str | arr => rfl
  · rw [if_neg hyes]
    rcases hv with ⟨fields, rfl⟩ | ⟨xs, rfl⟩
    · have hstr : (fun m : Json => decide (typeOf (some m) = .string)) = isStr := by
        funext m
        cases m <;> rfl
      simp only [JsValue.get, isGroup, bind, Except.bind, hstr]
      cases fields.lookup "id" with
      | none => rfl
      | some id =>
        cases id with
        | str => cases fields.lookup "name" with
          | none => rfl
          | some name =>
            cases name with
            | str => cases fields.lookup "members" with
              | none => rfl
              | some members => cases members <;> rfl
            | null | bool | num | arr | obj => rfl
        | null | bool | num | arr | obj => rfl
    · rfl

theorem map_val_keep (check : Json → Bool) (xs : List Json) : (keep check xs).map Subtype.val = xs.filter check := by
  induction xs with
  | nil => rfl
  | cons x xs ih =>
    rw [keep] at ih ⊢
    by_cases hx : check x = true
    · rw [List.filterMap_cons, dif_pos hx, List.filter_cons_of_pos hx, ← ih]
      rfl
    · rw [List.filterMap_cons, dif_neg hx, List.filter_cons_of_neg hx, ih]

theorem spread_setField (positions : PosMap) (k : String) (v : Position) :
    spread (setField positions k v) = setField (spread positions) k v.val := by
  have hkeys : (spread positions).map Prod.fst = positions.map Prod.fst := List.map_map
  unfold setField
  rw [hkeys]
  split
  · rw [spread, spread, List.map_map, List.map_map]
    refine List.map_congr_left fun p _ => ?_
    dsimp only [Function.comp_apply]
    split <;> rfl
  · rw [spread, List.map_append]
    rfl

theorem parseEntry_ok {out : Layout} {entry : String × Json} (hproto : entry.1 ≠ "__proto__") :
    Blob.parseEntry out.blob entry = .ok (parseEntry out entry).blob := by
  obtain ⟨key, value⟩ := entry
  rw [Blob.parseEntry, parseEntry]
  split
  · cases value with
    | arr xs =>
      have hfilter : JsValue.filter (some (arr xs)) (fun v => Blob.isGroup (some v)) =
          .ok ((keep isGroup xs).map Subtype.val) := by
        rw [JsValue.filter, filterLoop_ok isGroup_ok, map_val_keep]
      simp only [isArray, if_true, hfilter, bind, Except.bind]
      rfl
    | null | bool | num | str | obj => rfl
  · rw [isPosition_ok]
    by_cases hpos : isPosition value = true
    · rw [dif_pos hpos, hpos]
      simp only [Layout.blob, spread_setField, assign, if_neg hproto, if_true, bind, Except.bind, pure, Except.pure]
    · have hno : isPosition value = false := by simpa using hpos
      rw [dif_neg hpos, hno]
      rfl

/-- No entry has the name that an assignment does not keep. -/
def NoProto (raw : Json) : Prop := ∀ e ∈ raw.entries, e.1 ≠ "__proto__"

theorem foldlM_parseEntry_ok {es : List (String × Json)} {out : Layout} (h : ∀ e ∈ es, e.1 ≠ "__proto__") :
    es.foldlM Blob.parseEntry out.blob = .ok (es.foldl parseEntry out).blob := by
  induction es generalizing out with
  | nil => rfl
  | cons e es ih =>
    rw [List.foldlM_cons, parseEntry_ok (h e List.mem_cons_self), List.foldl_cons]
    exact ih fun x hx => h x (List.mem_cons_of_mem _ hx)

theorem parseLayout_ok {raw : Json} (h : NoProto raw) :
    Blob.parseLayout (some raw) = .ok (parseLayout raw).blob := by
  unfold Blob.parseLayout
  rcases object_cases raw with ⟨hno, hobj, harr⟩ | ⟨hyes, hraw⟩
  · rw [if_pos hno]
    cases raw with
    | obj fields => exact absurd rfl (hobj fields)
    | arr xs => exact absurd rfl (harr xs)
    | null | bool | num | str => rfl
  · rw [if_neg hyes]
    have hentries : JsValue.entries (some raw) = .ok raw.entries := by
      rcases hraw with ⟨fields, rfl⟩ | ⟨xs, rfl⟩ <;> rfl
    rw [hentries]
    exact @foldlM_parseEntry_ok raw.entries ⟨[], []⟩ h

/-! ## Round trip -/

/-- Positions are read into an empty map as they stand. -/
theorem foldl_spread {positions : PosMap} {out : Layout}
    (hnodup : ((out.positions ++ positions).map Prod.fst).Nodup) (hkey : ∀ p ∈ positions, p.1 ≠ groupsKey) :
    (spread positions).foldl parseEntry out = ⟨out.positions ++ positions, out.groups⟩ := by
  induction positions generalizing out with
  | nil => simp [spread]
  | cons p ps ih =>
    obtain ⟨k, v⟩ := p
    have hk : k ≠ groupsKey := hkey _ List.mem_cons_self
    have hnew : k ∉ out.positions.map Prod.fst := fun hmem => by
      rw [List.map_append, List.map_cons] at hnodup
      exact (List.nodup_append.mp hnodup).2.2 k hmem k List.mem_cons_self rfl
    have hentry : parseEntry out (k, v.val) = ⟨out.positions ++ [(k, v)], out.groups⟩ := by
      simp only [parseEntry, if_neg hk, v.property, dif_pos, setField, if_neg hnew]
    show (spread ps).foldl parseEntry (parseEntry out (k, v.val)) = _
    rw [hentry, ih (by simpa using hnodup) fun q hq => hkey q (List.mem_cons_of_mem _ hq)]
    simp

theorem parse_serialize {layout : Layout} (hnodup : (layout.positions.map Prod.fst).Nodup)
    (hkey : ∀ p ∈ layout.positions, p.1 ≠ groupsKey) : parseLayout (serializeLayout layout) = layout := by
  have hspread : (spread layout.positions).foldl parseEntry ⟨[], []⟩ = ⟨layout.positions, []⟩ :=
    foldl_spread hnodup hkey
  unfold serializeLayout
  split
  · rename_i hnone
    show (spread layout.positions).foldl parseEntry ⟨[], []⟩ = layout
    rw [hspread, ← hnone]
  · have hnew : groupsKey ∉ (spread layout.positions).map Prod.fst := fun hmem => by
      obtain ⟨f, hf, hk⟩ := List.mem_map.mp hmem
      obtain ⟨p, hp, rfl⟩ := List.mem_map.mp hf
      exact hkey p hp hk
    show (setField (spread layout.positions) groupsKey (arr (layout.groups.map Subtype.val))).foldl parseEntry
      ⟨[], []⟩ = layout
    rw [setField, if_neg hnew, List.foldl_append, hspread, List.foldl_cons, List.foldl_nil, parseEntry, if_pos rfl]
    dsimp only
    rw [keep_val]

theorem noProto_serialize {layout : Layout} (h : ∀ p ∈ layout.positions, p.1 ≠ "__proto__") :
    NoProto (serializeLayout layout) := by
  have hspread : ∀ e ∈ spread layout.positions, e.1 ≠ "__proto__" := fun e he => by
    obtain ⟨p, hp, rfl⟩ := List.mem_map.mp he
    exact h p hp
  unfold serializeLayout
  intro e he
  split at he
  · exact hspread e he
  · rcases mem_setField he with rfl | ⟨hold, -⟩
    · simp [groupsKey]
    · exact hspread e hold

/-! ## What is kept -/

/-- What was read from some of the entries. -/
structure ParsedFrom (es : List (String × Json)) (out : Layout) : Prop where
  nodup : (out.positions.map Prod.fst).Nodup
  positions : ∀ p ∈ out.positions, (p.1, p.2.val) ∈ es ∧ p.1 ≠ groupsKey
  groups : ∀ g ∈ out.groups, ∃ xs, (groupsKey, arr xs) ∈ es ∧ g.val ∈ xs

theorem nodup_setField {α : Type} {fields : List (String × α)} {k : String} {v : α}
    (h : (fields.map Prod.fst).Nodup) : ((setField fields k v).map Prod.fst).Nodup := by
  unfold setField
  split
  · have hkeys : (fields.map fun f => if f.1 = k then (k, v) else f).map Prod.fst = fields.map Prod.fst := by
      rw [List.map_map]
      refine List.map_congr_left fun f _ => ?_
      dsimp only [Function.comp_apply]
      split
      · rename_i hk
        exact hk.symm
      · rfl
    rwa [hkeys]
  · rename_i hnew
    rw [List.map_append]
    refine h.append (List.nodup_singleton k) fun x hx hxk => ?_
    obtain rfl : x = k := List.mem_singleton.mp hxk
    exact hnew hx

theorem ParsedFrom.parseEntry {es : List (String × Json)} {out : Layout} (h : ParsedFrom es out) {e : String × Json}
    (he : e ∈ es) : ParsedFrom es (parseEntry out e) := by
  obtain ⟨key, value⟩ := e
  unfold Web.parseEntry
  split
  · rename_i hkey
    cases value with
    | arr xs =>
      refine ⟨h.nodup, h.positions, fun g hg => ⟨xs, ?_, ?_⟩⟩
      · have : key = groupsKey := hkey
        exact this ▸ he
      · have hmem : g.val ∈ xs.filter isGroup := map_val_keep isGroup xs ▸ List.mem_map_of_mem hg
        exact (List.mem_filter.mp hmem).1
    | null | bool | num | str | obj => exact h
  · rename_i hkey
    split
    · rename_i hpos
      refine ⟨nodup_setField h.nodup, fun p hp => ?_, h.groups⟩
      rcases mem_setField hp with rfl | ⟨hold, -⟩
      · exact ⟨he, hkey⟩
      · exact h.positions p hold
    · exact h

theorem parsedFrom_parseLayout (raw : Json) : ParsedFrom raw.entries (parseLayout raw) := by
  have hfold : ∀ es : List (String × Json), es ⊆ raw.entries → ∀ out, ParsedFrom raw.entries out →
      ParsedFrom raw.entries (es.foldl parseEntry out) := by
    intro es
    induction es with
    | nil => exact fun _ out h => h
    | cons e es ih =>
      intro hsub out h
      exact ih (fun x hx => hsub (List.mem_cons_of_mem _ hx)) _ (h.parseEntry (hsub List.mem_cons_self))
  exact hfold _ (List.Subset.refl _) _ ⟨List.nodup_nil, by simp, by simp⟩

/-! ## The blob comes back -/

/-- **Layouts come back.** What is written from a layout is read back as it. Reading any JSON value gives a layout,
    whose positions and groups have their shapes and stand in the value, and which comes back as well. -/
theorem layout_round_trip :
    (∀ layout : Layout, (layout.positions.map Prod.fst).Nodup →
      (∀ p ∈ layout.positions, p.1 ≠ groupsKey ∧ p.1 ≠ "__proto__") →
      Blob.parseLayout (some (serializeLayout layout)) = .ok layout.blob) ∧
    ∀ raw, NoProto raw → ∃ layout : Layout, Blob.parseLayout (some raw) = .ok layout.blob ∧
      (∀ p ∈ layout.positions, (p.1, p.2.val) ∈ raw.entries) ∧
      (∀ g ∈ layout.groups, ∃ xs, (groupsKey, arr xs) ∈ raw.entries ∧ g.val ∈ xs) ∧
      Blob.parseLayout (some (serializeLayout layout)) = .ok layout.blob := by
  have hback : ∀ layout : Layout, (layout.positions.map Prod.fst).Nodup →
      (∀ p ∈ layout.positions, p.1 ≠ groupsKey ∧ p.1 ≠ "__proto__") →
      Blob.parseLayout (some (serializeLayout layout)) = .ok layout.blob := by
    intro layout hnodup hkey
    rw [parseLayout_ok (noProto_serialize fun p hp => (hkey p hp).2),
      parse_serialize hnodup fun p hp => (hkey p hp).1]
  refine ⟨hback, fun raw hraw => ?_⟩
  have h := parsedFrom_parseLayout raw
  refine ⟨parseLayout raw, parseLayout_ok hraw, fun p hp => (h.positions p hp).1, h.groups, ?_⟩
  exact hback _ h.nodup fun p hp => ⟨(h.positions p hp).2, hraw _ (h.positions p hp).1⟩

/-- A layout of one card and one group, and a blob with nothing well formed in it. -/
def demoLayout : Layout := ⟨[("c:1", XY.position ⟨10, 20⟩)], [newGroup "g1" "Group 1"]⟩

/-- A blob in which nothing passes for a position or a group. -/
def brokenBlob : Json := obj [("c:1", arr [num 1]), (groupsKey, arr [null, obj [("id", str "g1")]]), ("n:2", null)]

/-- A layout with a group, and a blob in which nothing fits. -/
theorem layout_round_trip_demo : Blob.parseLayout (some (serializeLayout demoLayout)) = .ok demoLayout.blob ∧
    ∃ layout : Layout, Blob.parseLayout (some brokenBlob) = .ok layout.blob := by
  obtain ⟨hback, hread⟩ := layout_round_trip
  refine ⟨hback demoLayout (by decide) fun p hp => ?_, ?_⟩
  · rw [List.mem_singleton.mp hp]
    decide
  · have hplain : NoProto brokenBlob := fun e he => by
      have : e.1 ∈ ["c:1", groupsKey, "n:2"] := List.mem_map_of_mem (f := Prod.fst) he
      intro hproto
      rw [hproto] at this
      exact absurd this (by decide)
    obtain ⟨layout, hlayout, -⟩ := hread brokenBlob hplain
    exact ⟨layout, hlayout⟩

end Web
end BeautyAwg
