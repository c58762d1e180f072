import Mathlib.Data.List.Pairwise
import Mathlib.Data.List.Perm.Basic

/-!
# `Rows`: query results without an order

A query returns its rows in any order, and a program builds one item of each. `OnePer R rows items` says
that `items` are those: matched with the rows one to one by `R`, the order left open. A program that asks for
one row gets any of them, `anyRow`.

## Contents
- **One row.** `anyRow`; `exists_anyRow`: each row can be the one.
- **Keys.** `eq_of_nodup_filterMap`: a unique column; `length_le_one_of_nodup_map`: rows with one key.
- **Building.** `of_filterMap`, `congr_rows`, `congr_items`, `of_map_perm`.
- **Reading.** `row`, `item`, `nodup`.
- **Comparing.** `filter` restricts both sides; `join` matches two lists built from the same rows; `map_perm`
  counts what a row and its item have in common.
-/

/-! ## One row -/

/-- The first row of a query without an order: any of those that match, as `pick` has it. -/
def anyRow {α : Type} (pick : Nat) (rows : List α) : Option α := rows[pick % rows.length]?

section AnyRow

variable {α : Type} {pick : Nat} {rows : List α} {a : α} {p : α → Bool}

theorem mem_of_anyRow (h : anyRow pick rows = some a) : a ∈ rows := List.mem_of_getElem? h

/-- No row comes back only if there is none. -/
theorem anyRow_eq_none : anyRow pick rows = none ↔ rows = [] := by
  rw [anyRow, List.getElem?_eq_none_iff]
  constructor
  · intro hle
    by_contra hne
    exact absurd (Nat.mod_lt pick (List.length_pos_iff.mpr hne)) (Nat.not_lt.mpr hle)
  · rintro rfl
    simp

/-- Each row that matches can be the one that comes back. -/
theorem exists_anyRow (h : a ∈ rows) : ∃ pick, anyRow pick rows = some a := by
  obtain ⟨i, hi, rfl⟩ := List.mem_iff_getElem.mp h
  exact ⟨i, by rw [anyRow, Nat.mod_eq_of_lt hi, List.getElem?_eq_getElem hi]⟩

/-- The first row of a look-up is the one that `find?` finds. -/
theorem anyRow_zero : anyRow 0 (rows.filter p) = rows.find? p := by
  rw [anyRow, Nat.zero_mod, ← List.head?_eq_getElem?, List.head?_filter]

/-- A row that a look-up takes is in the table and meets the condition. -/
theorem anyRow_filter (h : anyRow pick (rows.filter p) = some a) : a ∈ rows ∧ p a = true :=
  List.mem_filter.mp (mem_of_anyRow h)

/-- When a look-up takes no row, none meets the condition. -/
theorem anyRow_filter_none (h : anyRow pick (rows.filter p) = none) (ha : a ∈ rows) : p a = false := by
  have hnone := List.filter_eq_nil_iff.mp (anyRow_eq_none.mp h) a ha
  exact eq_false_of_ne_true hnone

end AnyRow

/-! ## Keys -/

/-- Rows that all have one key are one row at most. -/
theorem length_le_one_of_nodup_map {α β : Type} {f : α → β} {l : List α} (h : (l.map f).Nodup)
    (hsame : ∀ a ∈ l, ∀ b ∈ l, f a = f b) : l.length ≤ 1 := by
  match l with
  | [] | [_] => simp
  | a :: b :: rest =>
    have hne : f a ≠ f b := fun he => (List.nodup_cons.mp h).1 (by simp [he])
    exact absurd (hsame a (by simp) b (by simp)) hne

/-- A nullable column without repetition determines the row. -/
theorem eq_of_nodup_filterMap {α β : Type} {f : α → Option β} {l : List α} (h : (l.filterMap f).Nodup)
    {x y : α} {b : β} (hx : x ∈ l) (hy : y ∈ l) (hfx : f x = some b) (hfy : f y = some b) : x = y := by
  have : Std.Symm fun x y : α => ∀ b, f x = some b → ∀ b', f y = some b' → b ≠ b' :=
    ⟨fun _ _ hxy b hb b' hb' he => hxy b' hb' b hb he.symm⟩
  by_contra hne
  exact (List.pairwise_filterMap.mp h).forall hx hy hne b hfx b hfy rfl

/-- One item for each row, in any order. -/
def OnePer {α β : Type} (R : α → β → Prop) (rows : List α) (items : List β) : Prop :=
  ∃ l, l.Perm rows ∧ List.Forall₂ R l items

namespace OnePer

variable {α β γ : Type} {R : α → β → Prop} {S : α → γ → Prop} {rows rows' : List α} {items : List β}
  {others : List γ}

/-! ## Building -/

theorem of_forall₂ (h : List.Forall₂ R rows items) : OnePer R rows items := ⟨rows, List.Perm.refl _, h⟩

/-- The order of the rows plays no part. -/
theorem congr_rows (hp : rows.Perm rows') (h : OnePer R rows items) : OnePer R rows' items := by
  obtain ⟨l, hl, hR⟩ := h
  exact ⟨l, hl.trans hp, hR⟩

/-- The order of the items plays no part. -/
theorem congr_items {items' : List β} (hp : items.Perm items') (h : OnePer R rows items) :
    OnePer R rows items' := by
  obtain ⟨l, hl, hR⟩ := h
  have hcomp : Relation.Comp (List.Forall₂ R) List.Perm l items' := ⟨items, hR, hp⟩
  rw [List.forall₂_comp_perm_eq_perm_comp_forall₂] at hcomp
  obtain ⟨l', hl', hR'⟩ := hcomp
  exact ⟨l', hl'.symm.trans hl, hR'⟩

/-- The rows an item is built from are those where the partial function is defined. -/
theorem of_filterMap {f : α → Option β} {p : α → Bool} (hp : ∀ a ∈ rows, p a = (f a).isSome)
    (h : ∀ a ∈ rows, ∀ b, f a = some b → R a b) : OnePer R (rows.filter p) (rows.filterMap f) := by
  refine of_forall₂ ?_
  induction rows with
  | nil => exact List.Forall₂.nil
  | cons a l ih =>
    have htail := ih (fun x hx => hp x (List.mem_cons_of_mem _ hx)) fun x hx => h x (List.mem_cons_of_mem _ hx)
    have ha := hp a List.mem_cons_self
    cases hf : f a with
    | none =>
      rw [hf] at ha
      rw [List.filter_cons_of_neg (by simp [ha]), List.filterMap_cons_none hf]
      exact htail
    | some b =>
      rw [hf] at ha
      rw [List.filter_cons_of_pos (by simp [ha]), List.filterMap_cons_some hf]
      exact List.Forall₂.cons (h a List.mem_cons_self b hf) htail

/-- Lists with the same keys are matched by their keys. -/
theorem of_map_perm {κ : Type} {f : α → κ} {g : β → κ} (hp : (rows.map f).Perm (items.map g))
    (h : ∀ a ∈ rows, ∀ b ∈ items, f a = g b → R a b) : OnePer R rows items := by
  have hkeys : OnePer (fun a k => f a = k) rows (rows.map f) :=
    of_forall₂ (List.forall₂_map_right_iff.mpr (List.forall₂_same.mpr fun _ _ => rfl))
  obtain ⟨l, hl, hF⟩ := hkeys.congr_items hp
  obtain ⟨hlen, hzip⟩ := List.forall₂_iff_zip.mp (List.forall₂_map_right_iff.mp hF)
  refine ⟨l, hl, List.forall₂_iff_zip.mpr ⟨hlen, fun hab => ?_⟩⟩
  obtain ⟨ha, hb⟩ := List.of_mem_zip hab
  exact h _ (hl.mem_iff.mp ha) _ hb (hzip hab)

/-! ## Reading -/

/-- The row of an item. -/
theorem row (h : OnePer R rows items) {b : β} (hb : b ∈ items) : ∃ a ∈ rows, R a b := by
  obtain ⟨l, hl, hR⟩ := h
  suffices ∃ a ∈ l, R a b by
    obtain ⟨a, ha, hab⟩ := this
    exact ⟨a, hl.mem_iff.mp ha, hab⟩
  clear hl
  induction hR with
  | nil => exact absurd hb List.not_mem_nil
  | @cons a c l items hac _ ih =>
    rcases List.mem_cons.mp hb with rfl | hb
    · exact ⟨a, List.mem_cons_self, hac⟩
    · obtain ⟨x, hx, hxb⟩ := ih hb
      exact ⟨x, List.mem_cons_of_mem _ hx, hxb⟩

/-- The item of a row. -/
theorem item (h : OnePer R rows items) {a : α} (ha : a ∈ rows) : ∃ b ∈ items, R a b := by
  obtain ⟨l, hl, hR⟩ := h
  have ha := hl.mem_iff.mpr ha
  clear hl
  induction hR with
  | nil => exact absurd ha List.not_mem_nil
  | @cons x b l items hxb _ ih =>
    rcases List.mem_cons.mp ha with rfl | ha
    · exact ⟨b, List.mem_cons_self, hxb⟩
    · obtain ⟨y, hy, hay⟩ := ih ha
      exact ⟨y, List.mem_cons_of_mem _ hy, hay⟩

/-- Items that determine their rows are distinct. -/
theorem nodup (h : OnePer R rows items) (hrows : rows.Nodup)
    (hinj : ∀ a ∈ rows, ∀ a' ∈ rows, ∀ b, R a b → R a' b → a = a') : items.Nodup := by
  obtain ⟨l, hl, hR⟩ := h
  have hnodup : l.Nodup := hl.nodup_iff.mpr hrows
  have hinj : ∀ a ∈ l, ∀ a' ∈ l, ∀ b, R a b → R a' b → a = a' := fun a ha a' ha' =>
    hinj a (hl.mem_iff.mp ha) a' (hl.mem_iff.mp ha')
  clear hl
  induction hR with
  | nil => exact List.nodup_nil
  | @cons a b l items hab htail ih =>
    obtain ⟨hnot, hnodup⟩ := List.nodup_cons.mp hnodup
    refine List.nodup_cons.mpr ⟨fun hb => ?_, ih hnodup fun x hx y hy =>
      hinj x (List.mem_cons_of_mem _ hx) y (List.mem_cons_of_mem _ hy)⟩
    obtain ⟨x, hx, hxb⟩ := (of_forall₂ htail).row hb
    exact hnot (hinj a List.mem_cons_self x (List.mem_cons_of_mem _ hx) b hab hxb ▸ hx)

/-! ## Comparing -/

/-- Both sides restricted, by conditions that agree on matched pairs. -/
theorem filter {p : α → Bool} {q : β → Bool} (h : OnePer R rows items)
    (hpq : ∀ a ∈ rows, ∀ b, R a b → p a = q b) : OnePer R (rows.filter p) (items.filter q) := by
  obtain ⟨l, hl, hR⟩ := h
  refine congr_rows (hl.filter p) (of_forall₂ ?_)
  have hpq : ∀ a ∈ l, ∀ b, R a b → p a = q b := fun a ha => hpq a (hl.mem_iff.mp ha)
  clear hl
  induction hR with
  | nil => exact List.Forall₂.nil
  | @cons a b l items hab _ ih =>
    have htail := ih fun x hx => hpq x (List.mem_cons_of_mem _ hx)
    have hhead := hpq a List.mem_cons_self b hab
    cases hp : p a with
    | true =>
      rw [List.filter_cons_of_pos hp, List.filter_cons_of_pos (hhead ▸ hp)]
      exact List.Forall₂.cons hab htail
    | false =>
      rw [List.filter_cons_of_neg (by simp [hp]), List.filter_cons_of_neg (by simp [← hhead, hp])]
      exact htail

/-- Two lists built from the same rows have one item of the one for each of the other. -/
theorem join (h : OnePer R rows items) (h' : OnePer S rows others) :
    OnePer (fun c b => ∃ a ∈ rows, R a b ∧ S a c) others items := by
  obtain ⟨l, hl, hR⟩ := h
  obtain ⟨l', hl', hS⟩ := h'
  -- the second list, in the order of the first
  obtain ⟨zs, hzs, hperm⟩ := List.perm_comp_forall₂ (hl.trans hl'.symm) hS
  refine ⟨zs, hperm, ?_⟩
  have hmem : ∀ a ∈ l, a ∈ rows := fun a ha => hl.mem_iff.mp ha
  clear hl hl' hS hperm
  induction hR generalizing zs with
  | nil =>
    cases hzs
    exact List.Forall₂.nil
  | @cons a b l items hab _ ih =>
    cases hzs with
    | cons hac htail =>
      exact List.Forall₂.cons ⟨a, hmem a List.mem_cons_self, hab, hac⟩
        (ih _ htail fun x hx => hmem x (List.mem_cons_of_mem _ hx))

/-- A value that each item has from its row comes as often among the items as among the rows. -/
theorem map_perm {δ : Type} {f : α → δ} {k : β → δ} (h : OnePer R rows items) (hfk : ∀ a b, R a b → f a = k b) :
    (rows.map f).Perm (items.map k) := by
  obtain ⟨l, hl, hR⟩ := h
  have hvalues : List.Forall₂ Eq (l.map f) (items.map k) := by
    rw [List.forall₂_map_left_iff, List.forall₂_map_right_iff]
    exact hR.imp hfk
  rw [List.forall₂_eq_eq_eq] at hvalues
  rw [← hvalues]
  exact (hl.map f).symm

end OnePer
