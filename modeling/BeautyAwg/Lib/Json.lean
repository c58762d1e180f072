import Mathlib.Data.List.Induction
import Mathlib.Data.Rat.Floor

/-!
# `Json`: parsed JSON

JSON values as a program sees them after parsing, with the operations on objects that a spread
(`{...a, k: v}`) or a field access is made of.
-/

/-- A value of a JSON text. -/
inductive Json where
  | null
  | bool (b : Bool)
  | num (x : Rat)
  | str (s : String)
  | arr (xs : List Json)
  | obj (fields : List (String × Json))

namespace Json

/-- `Object.entries` of an object or an array. -/
def entries : Json → List (String × Json)
  | arr xs => xs.mapIdx fun i x => (toString i, x)
  | obj fields => fields
  | _ => []

/-- The value is a string. -/
def isStr : Json → Bool
  | str _ => true
  | _ => false

/-- The value is a number. -/
def isNum : Json → Bool
  | num _ => true
  | _ => false

/-- An array of strings. -/
def isStrs : Json → Bool
  | arr xs => xs.all isStr
  | _ => false

/-- The strings of an array, in order. -/
def strs : Json → List String
  | arr xs => xs.filterMap fun
    | str s => some s
    | _ => none
  | _ => []

end Json

/-! ## Fields -/

/-- The field with a new value, where it was or at the end. -/
def setField {α : Type} (fields : List (String × α)) (k : String) (v : α) : List (String × α) :=
  if k ∈ fields.map Prod.fst then fields.map fun f => if f.1 = k then (k, v) else f else fields ++ [(k, v)]

/-- After a field was replaced in place, that key gives the new value and the others what they gave. -/
theorem lookup_map_field {α : Type} {fields : List (String × α)} {k : String} {v : α} {k' : String} :
    (fields.map fun f => if f.1 = k then (k, v) else f).lookup k' =
      if k' = k ∧ k ∈ fields.map Prod.fst then some v else fields.lookup k' := by
  induction fields with
  | nil => simp
  | cons f fs ih =>
    obtain ⟨a, b⟩ := f
    by_cases ha : a = k
    · subst ha
      by_cases hk : k' = a
      · subst hk
        simp
      · simp [List.lookup_cons, beq_false_of_ne hk, ih, hk]
    · by_cases hk : k' = a
      · subst hk
        simp [ha]
      · simp only [List.map_cons, ha, if_false, List.lookup_cons, beq_false_of_ne hk, ih, List.mem_cons, Ne.symm ha,
          false_or]

/-- A field that was just set. -/
theorem lookup_setField {α : Type} (fields : List (String × α)) (k : String) (v : α) (k' : String) :
    (setField fields k v).lookup k' = if k' = k then some v else fields.lookup k' := by
  unfold setField
  split
  · rename_i hmem
    rw [lookup_map_field]
    simp [hmem]
  · rename_i hnew
    rw [List.lookup_append]
    by_cases hk : k' = k
    · subst hk
      have hnone : fields.lookup k' = none := by
        refine List.lookup_eq_none_iff.mpr fun f hf => bne_iff_ne.mpr ?_
        rintro rfl
        exact hnew (List.mem_map_of_mem hf)
      simp [hnone]
    · simp [hk, List.lookup_cons, beq_false_of_ne hk]

/-- A field of the result is the new one, or an old one under another key. -/
theorem mem_setField {α : Type} {fields : List (String × α)} {k : String} {v : α} {f : String × α}
    (h : f ∈ setField fields k v) : f = (k, v) ∨ f ∈ fields ∧ f.1 ≠ k := by
  unfold setField at h
  split at h
  · obtain ⟨g, hg, rfl⟩ := List.mem_map.mp h
    split
    · exact .inl rfl
    · rename_i hne
      exact .inr ⟨hg, hne⟩
  · rename_i hnew
    rcases List.mem_append.mp h with hold | hlast
    · refine .inr ⟨hold, ?_⟩
      rintro rfl
      exact hnew (List.mem_map_of_mem hold)
    · exact .inl (List.mem_singleton.mp hlast)

/-- The field that was set is among the fields. -/
theorem mem_setField_self {α : Type} (fields : List (String × α)) (k : String) (v : α) :
    (k, v) ∈ setField fields k v := by
  unfold setField
  split
  · rename_i hmem
    obtain ⟨f, hf, rfl⟩ := List.mem_map.mp hmem
    exact List.mem_map.mpr ⟨f, hf, by simp⟩
  · simp

/-- The fields under other keys stay. -/
theorem mem_setField_of_ne {α : Type} {fields : List (String × α)} {k : String} {v : α} {f : String × α}
    (h : f ∈ fields) (hne : f.1 ≠ k) : f ∈ setField fields k v := by
  unfold setField
  split
  · exact List.mem_map.mpr ⟨f, h, if_neg hne⟩
  · exact List.mem_append_left _ h

/-! ### Fields set one after another -/

section SetFields

variable {α ρ : Type} {key : ρ → String} {value : ρ → α} {rows : List ρ} {r : ρ}

/-- Every field comes from one of the rows. -/
theorem mem_setFields {f : String × α} (h : f ∈ rows.foldl (fun m r => setField m (key r) (value r)) []) :
    ∃ r ∈ rows, f = (key r, value r) := by
  induction rows using List.reverseRecOn with
  | nil => exact absurd h List.not_mem_nil
  | append_singleton l r ih =>
    rw [List.foldl_append] at h
    rcases mem_setField h with rfl | ⟨hold, -⟩
    · exact ⟨r, by simp, rfl⟩
    · obtain ⟨x, hx, rfl⟩ := ih hold
      exact ⟨x, List.mem_append_left _ hx, rfl⟩

/-- Every row has its field. -/
theorem field_setFields (hr : r ∈ rows) :
    ∃ v, (key r, v) ∈ rows.foldl (fun m r => setField m (key r) (value r)) [] := by
  induction rows using List.reverseRecOn with
  | nil => exact absurd hr List.not_mem_nil
  | append_singleton l x ih =>
    rw [List.foldl_append]
    by_cases hkey : key r = key x
    · exact ⟨value x, hkey ▸ mem_setField_self _ _ _⟩
    · have hl : r ∈ l := by
        rcases List.mem_append.mp hr with hl | hlast
        · exact hl
        · rw [List.mem_singleton.mp hlast] at hkey
          exact absurd rfl hkey
      obtain ⟨v, hv⟩ := ih hl
      exact ⟨v, mem_setField_of_ne hv hkey⟩

/-- The last row decides its field. -/
theorem last_setFields (key : ρ → String) (value : ρ → α) {v : α}
    (h : (key r, v) ∈ (rows ++ [r]).foldl (fun m r => setField m (key r) (value r)) []) : v = value r := by
  rw [List.foldl_append] at h
  rcases mem_setField h with heq | ⟨-, hne⟩
  · exact (Prod.mk.inj heq).2
  · exact absurd rfl hne

end SetFields
