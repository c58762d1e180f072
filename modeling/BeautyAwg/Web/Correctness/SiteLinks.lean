import BeautyAwg.Lib.Rows
import BeautyAwg.Web.SiteLinks
import Mathlib.Data.List.Nodup

/-!
# `Web.Correctness.SiteLinks`: every link is drawn once

The map draws a pair that is linked both ways as one bus and any other link as an arrow. Deleting an edge unlinks what
its id says, so the ids must say each link once: `rels_once`. The order of the links decides only which end of a bus
is its source: `rels_perm`. A link from a location to itself, or a location whose id holds the separator, breaks
this: `rels_twice`.

## Contents
- **Ids.** `unlinks_linkEdgeId`, `unlinks_busEdgeId`; `mutual_iff`.
- **The edge of a link.** `idOf`, `relOf`, `mem_unlinks`.
- **The loop.** `Drawn`, `drawn_relsLoop`.
- **Order.** `pairNow_perm`, `lookup_startAll`, `rels_perm`.
-/

namespace BeautyAwg
namespace Web

open Utf16 Json

/-! ## Ids -/

theorem parseEdge_join {tag a b : String} (htag : tag.toList.length = 4) (ha : '~' ∉ a.toList) (hb : '~' ∉ b.toList) :
    parseEdge (tag ++ a ++ "~" ++ b) = [a, b] := by
  have hlist : (tag ++ a ++ "~" ++ b).toList.drop 4 = a.toList ++ '~' :: b.toList := by
    rw [← htag]
    simp [String.toList_append]
  rw [parseEdge, hlist, List.splitOn_append_cons_self_of_not_mem ha, List.splitOn_eq_singleton hb]
  simp

theorem isBusEdge_busEdgeId (a b : String) : isBusEdge (busEdgeId a b) = true := by
  simp [isBusEdge, busEdgeId, String.toList_append]

theorem isBusEdge_linkEdgeId (a b : String) : isBusEdge (linkEdgeId a b) = false := by
  simp [isBusEdge, linkEdgeId, String.toList_append, List.isPrefixOf]

theorem isLinkEdge_linkEdgeId (a b : String) : isLinkEdge (linkEdgeId a b) = true := by
  simp [isLinkEdge, linkEdgeId, String.toList_append]

variable {a b : String}

theorem unlinks_linkEdgeId (ha : '~' ∉ a.toList) (hb : '~' ∉ b.toList) : unlinks (linkEdgeId a b) = [⟨a, b⟩] := by
  have hparse : parseEdge (linkEdgeId a b) = [a, b] := parseEdge_join (by decide) ha hb
  simp [unlinks, hparse, isBusEdge_linkEdgeId, isLinkEdge_linkEdgeId]

/-- A bus stands for both directions. -/
theorem unlinks_busEdgeId (ha : '~' ∉ a.toList) (hb : '~' ∉ b.toList) :
    unlinks (busEdgeId a b) = [⟨a, b⟩, ⟨b, a⟩] ∨ unlinks (busEdgeId a b) = [⟨b, a⟩, ⟨a, b⟩] := by
  rcases sortPair_cases a b with h | h
  · have hparse : parseEdge (busEdgeId a b) = [a, b] := by
      rw [busEdgeId, h]
      exact parseEdge_join (by decide) ha hb
    exact .inl (by simp [unlinks, hparse, isBusEdge_busEdgeId])
  · have hparse : parseEdge (busEdgeId a b) = [b, a] := by
      rw [busEdgeId, h]
      exact parseEdge_join (by decide) hb ha
    exact .inr (by simp [unlinks, hparse, isBusEdge_busEdgeId])

theorem busEdgeId_comm (a b : String) : busEdgeId a b = busEdgeId b a := by
  rw [busEdgeId, busEdgeId, sortPair_comm]

/-- A text with one separator is cut in one way. -/
theorem append_sep_inj {sep : Char} {x y a b : List Char} (ha : sep ∉ a) (hb : sep ∉ b)
    (h : x ++ sep :: y = a ++ sep :: b) : x = a ∧ y = b := by
  have hsplit : x.splitOn sep ++ y.splitOn sep = [a] ++ [b] := by
    rw [← List.splitOn_append_cons_self, h, List.splitOn_append_cons_self, List.splitOn_eq_singleton ha,
      List.splitOn_eq_singleton hb]
  have hx := List.length_pos_of_ne_nil (List.splitOn_ne_nil sep x)
  have hy := List.length_pos_of_ne_nil (List.splitOn_ne_nil sep y)
  have hlen : (x.splitOn sep).length + (y.splitOn sep).length = 2 := by
    rw [← List.length_append, hsplit]
    rfl
  obtain ⟨hxa, hyb⟩ := List.append_inj hsplit (by
    rw [List.length_singleton]
    omega)
  have hxjoin : [sep].intercalate (x.splitOn sep) = x := List.intercalate_splitOn sep
  have hyjoin : [sep].intercalate (y.splitOn sep) = y := List.intercalate_splitOn sep
  constructor
  · rw [← hxjoin, hxa, List.intercalate_singleton]
  · rw [← hyjoin, hyb, List.intercalate_singleton]

/-! ## The edge of a link -/

/-- Distinct links, ids without the separators, and no active location linked to itself. -/
structure Drawable (active : List String) (links : List SiteLink) : Prop where
  nodup : links.Nodup
  plain : ∀ id ∈ active, '~' ∉ id.toList ∧ '>' ∉ id.toList
  proper : ∀ l ∈ links, l.Live active → l.src ≠ l.dst

variable {active : List String} {links links' : List SiteLink} {l x : SiteLink}

theorem mutual_iff (hd : Drawable active links) (hl : l.Live active) : Mutual links l ↔ l.swap ∈ links := by
  rw [Mutual, both, List.mem_map]
  constructor
  · rintro ⟨x, hx, he⟩
    have htext : x.src.toList ++ '>' :: x.dst.toList = l.dst.toList ++ '>' :: l.src.toList := by
      have := congrArg String.toList he
      simpa [String.toList_append] using this
    obtain ⟨hsrc, hdst⟩ := append_sep_inj (hd.plain _ hl.2).2 (hd.plain _ hl.1).2 htext
    have hxl : x = l.swap := by
      rw [SiteLink.swap, ← String.toList_inj.mp hsrc, ← String.toList_inj.mp hdst]
    exact hxl ▸ hx
  · exact fun h => ⟨l.swap, h, rfl⟩

/-- The id of the edge that stands for a link. -/
def idOf (links : List SiteLink) (l : SiteLink) : String :=
  if Mutual links l then busEdgeId l.src l.dst else linkEdgeId l.src l.dst

/-- The edge that stands for a link, where no pair is collapsing. -/
def relOf (links : List SiteLink) (busTx : List (String × BusTx)) (l : SiteLink) : Rel :=
  if Mutual links l then ⟨idOf links l, nid l.src, nid l.dst, true, busTx.lookup (busEdgeId l.src l.dst)⟩
  else ⟨idOf links l, nid l.src, nid l.dst, false, none⟩

@[simp] theorem relOf_id (busTx : List (String × BusTx)) (l : SiteLink) : (relOf links busTx l).id = idOf links l := by
  unfold relOf
  split <;> rfl

/-- A bus is decoded to both directions. -/
theorem mem_unlinks_bus (hd : Drawable active links) (hl : l.Live active) :
    x ∈ unlinks (busEdgeId l.src l.dst) ↔ x = l ∨ x = l.swap := by
  rcases unlinks_busEdgeId (hd.plain _ hl.1).1 (hd.plain _ hl.2).1 with h | h
  · rw [h]
    simp [SiteLink.swap]
  · rw [h]
    simp [SiteLink.swap, or_comm]

theorem unlinks_self (hd : Drawable active links) (hl : l.Live active) : l ∈ unlinks (idOf links l) := by
  unfold idOf
  split
  · exact (mem_unlinks_bus hd hl).mpr (.inl rfl)
  · simp [unlinks_linkEdgeId (hd.plain _ hl.1).1 (hd.plain _ hl.2).1]

/-- What the edge of a link is decoded to: the link, and its reverse if both are there. -/
theorem link_of_unlinks (hd : Drawable active links) (hlive : l.Live active) (hx : x ∈ unlinks (idOf links l)) :
    x = l ∨ Mutual links l ∧ x = l.swap := by
  unfold idOf at hx
  split at hx
  · rename_i hm
    exact ((mem_unlinks_bus hd hlive).mp hx).imp_right fun h => ⟨hm, h⟩
  · rw [unlinks_linkEdgeId (hd.plain _ hlive.1).1 (hd.plain _ hlive.2).1] at hx
    exact .inl (List.mem_singleton.mp hx)

theorem mutual_swap (hd : Drawable active links) (hl : l ∈ links) (hlive : l.Live active) : Mutual links l.swap :=
  (mutual_iff hd ⟨hlive.2, hlive.1⟩).mpr hl

/-- The links that an edge is decoded to are those that have it. -/
theorem mem_unlinks (hd : Drawable active links) (hl : l ∈ links) (hlive : l.Live active) :
    x ∈ unlinks (idOf links l) ↔ (x ∈ links ∧ x.Live active) ∧ idOf links x = idOf links l := by
  constructor
  · intro hx
    rcases link_of_unlinks hd hlive hx with rfl | ⟨hm, rfl⟩
    · exact ⟨⟨hl, hlive⟩, rfl⟩
    · refine ⟨⟨(mutual_iff hd hlive).mp hm, hlive.2, hlive.1⟩, ?_⟩
      rw [idOf, if_pos (mutual_swap hd hl hlive), idOf, if_pos hm]
      exact busEdgeId_comm _ _
  · rintro ⟨⟨-, hxlive⟩, hid⟩
    exact hid ▸ unlinks_self hd hxlive

theorem unlinks_nodup (hd : Drawable active links) (hl : l ∈ links) (hlive : l.Live active) :
    (unlinks (idOf links l)).Nodup := by
  have hsrc := (hd.plain _ hlive.1).1
  have hdst := (hd.plain _ hlive.2).1
  have hne : l.src ≠ l.dst := hd.proper l hl hlive
  unfold idOf
  split
  · rcases unlinks_busEdgeId hsrc hdst with h | h <;> simp [h, hne, Ne.symm hne]
  · simp [unlinks_linkEdgeId hsrc hdst]

/-! ## The loop -/

variable {busTx : List (String × BusTx)} {todo : List SiteLink} {drawn : List String}

/-- What the loop draws from `todo`: an edge of each live link, each edge once, none that is drawn already. -/
structure Drawn (active : List String) (links : List SiteLink) (busTx : List (String × BusTx)) (todo : List SiteLink)
    (drawn : List String) (rels : List Rel) : Prop where
  rel : ∀ r ∈ rels, ∃ l ∈ todo, l.Live active ∧ r = relOf links busTx l
  fresh : ∀ r ∈ rels, r.id ∉ drawn
  distinct : (rels.map Rel.id).Nodup
  all : ∀ l ∈ todo, l.Live active → idOf links l ∈ rels.map Rel.id ∨ idOf links l ∈ drawn

theorem Drawn.skip {rels : List Rel} (h : Drawn active links busTx todo drawn rels)
    (hl : l.Live active → idOf links l ∈ drawn) : Drawn active links busTx (l :: todo) drawn rels where
  rel r hr := by
    obtain ⟨x, hx, hrest⟩ := h.rel r hr
    exact ⟨x, List.mem_cons_of_mem _ hx, hrest⟩
  fresh := h.fresh
  distinct := h.distinct
  all x hx hlive := by
    rcases List.mem_cons.mp hx with rfl | hx
    · exact .inr (hl hlive)
    · exact h.all x hx hlive

/-- One more edge, which is not drawn yet and not drawn later. -/
theorem Drawn.push {rels : List Rel} {drawn' : List String} (h : Drawn active links busTx todo drawn' rels)
    (hlive : l.Live active) (hsub : drawn ⊆ drawn') (hnew : ∀ d ∈ drawn', d ∈ drawn ∨ d = idOf links l)
    (hfresh : idOf links l ∉ drawn) (hlater : idOf links l ∉ rels.map Rel.id) :
    Drawn active links busTx (l :: todo) drawn (relOf links busTx l :: rels) where
  rel r hr := by
    rcases List.mem_cons.mp hr with rfl | hr
    · exact ⟨l, List.mem_cons_self, hlive, rfl⟩
    · obtain ⟨x, hx, hrest⟩ := h.rel r hr
      exact ⟨x, List.mem_cons_of_mem _ hx, hrest⟩
  fresh r hr := by
    rcases List.mem_cons.mp hr with rfl | hr
    · rw [relOf_id]
      exact hfresh
    · exact fun hmem => h.fresh r hr (hsub hmem)
  distinct := by
    rw [List.map_cons, List.nodup_cons, relOf_id]
    exact ⟨hlater, h.distinct⟩
  all x hx hxlive := by
    rw [List.map_cons, relOf_id]
    rcases List.mem_cons.mp hx with rfl | hx
    · exact .inl List.mem_cons_self
    · rcases h.all x hx hxlive with hrel | hdrawn
      · exact .inl (List.mem_cons_of_mem _ hrel)
      · rcases hnew _ hdrawn with hold | hsame
        · exact .inr hold
        · exact .inl (hsame ▸ List.mem_cons_self)

/-- A bus, noted as drawn, does not come again. -/
theorem Drawn.bus {rels : List Rel} (h : Drawn active links busTx todo (busEdgeId l.src l.dst :: drawn) rels)
    (hlive : l.Live active) (hm : Mutual links l) (hnew : busEdgeId l.src l.dst ∉ drawn) :
    Drawn active links busTx (l :: todo) drawn (relOf links busTx l :: rels) := by
  have hid : idOf links l = busEdgeId l.src l.dst := if_pos hm
  refine h.push hlive (List.subset_cons_self _ _) (fun d hdmem => ?_) (hid ▸ hnew) fun hlater => ?_
  · rcases List.mem_cons.mp hdmem with rfl | hdmem
    · exact .inr hid.symm
    · exact .inl hdmem
  · obtain ⟨r, hr, hrid⟩ := List.mem_map.mp hlater
    exact h.fresh r hr (hrid ▸ hid ▸ List.mem_cons_self)

/-- An arrow is decoded to its link alone, which does not come again. -/
theorem Drawn.arrow {rels : List Rel} (hd : Drawable active links) (h : Drawn active links busTx todo drawn rels)
    (hlive : l.Live active) (hm : ¬ Mutual links l) (hbus : ∀ d ∈ drawn, isBusEdge d = true) (hl : l ∉ todo) :
    Drawn active links busTx (l :: todo) drawn (relOf links busTx l :: rels) := by
  have hid : idOf links l = linkEdgeId l.src l.dst := if_neg hm
  refine h.push hlive (List.Subset.refl _) (fun d hdmem => .inl hdmem) (fun hmem => ?_) fun hlater => ?_
  · have := hbus _ hmem
    rw [hid, isBusEdge_linkEdgeId] at this
    cases this
  · obtain ⟨r, hr, hrid⟩ := List.mem_map.mp hlater
    obtain ⟨x, hx, hxlive, rfl⟩ := h.rel r hr
    rw [relOf_id] at hrid
    rcases link_of_unlinks hd hlive (hrid ▸ unlinks_self hd hxlive) with rfl | ⟨hm', -⟩
    · exact hl hx
    · exact hm hm'

theorem drawn_relsLoop (hd : Drawable active links) (hsplit : ∀ id tx, busTx.lookup id = some tx → tx.kind ≠ .split)
    (hnodup : todo.Nodup) (hbus : ∀ d ∈ drawn, isBusEdge d = true) :
    Drawn active links busTx todo drawn (relsLoop active links busTx todo drawn) := by
  induction todo generalizing drawn with
  | nil => exact ⟨by simp [relsLoop], by simp [relsLoop], by simp [relsLoop], by simp⟩
  | cons l todo ih =>
    obtain ⟨hlt, hnodup⟩ := List.nodup_cons.mp hnodup
    -- no bus is being taken apart
    have hnosplit : ¬ (busTx.lookup (busEdgeId l.src l.dst)).map BusTx.kind = some .split := fun h => by
      obtain ⟨tx, htx, hkind⟩ := Option.map_eq_some_iff.mp h
      exact hsplit _ tx htx hkind
    rw [relsLoop]
    split
    · rename_i hdead
      exact (ih hnodup hbus).skip fun hlive => absurd hlive hdead
    · rename_i hlive
      have hlive := not_not.mp hlive
      dsimp only
      -- both ways makes one bus, drawn at its first link; one way makes an arrow
      by_cases hm : Mutual links l
      · have hid : idOf links l = busEdgeId l.src l.dst := if_pos hm
        have hrel : relOf links busTx l =
            ⟨busEdgeId l.src l.dst, nid l.src, nid l.dst, true, busTx.lookup (busEdgeId l.src l.dst)⟩ := by
          rw [relOf, if_pos hm, hid]
        rw [if_pos (.inl hm)]
        split
        · rename_i hdrawn
          exact (ih hnodup hbus).skip fun _ => hid ▸ hdrawn
        · rename_i hnew
          have hbus' : ∀ d ∈ busEdgeId l.src l.dst :: drawn, isBusEdge d = true := fun d hdmem => by
            rcases List.mem_cons.mp hdmem with rfl | hdmem
            · exact isBusEdge_busEdgeId _ _
            · exact hbus d hdmem
          rw [← hrel]
          exact (ih hnodup hbus').bus hlive hm hnew
      · have hrel : relOf links busTx l = ⟨linkEdgeId l.src l.dst, nid l.src, nid l.dst, false, none⟩ := by
          rw [relOf, if_neg hm, idOf, if_neg hm]
        rw [if_neg (not_or.mpr ⟨hm, hnosplit⟩), ← hrel]
        exact Drawn.arrow hd (ih hnodup hbus) hlive hm hbus hlt

theorem mem_ids {rels : List Rel} {id : String} (h : Drawn active links busTx links [] rels) :
    id ∈ rels.map Rel.id ↔ ∃ l ∈ links, l.Live active ∧ idOf links l = id := by
  constructor
  · intro hmem
    obtain ⟨r, hr, rfl⟩ := List.mem_map.mp hmem
    obtain ⟨l, hl, hlive, rfl⟩ := h.rel r hr
    exact ⟨l, hl, hlive, (relOf_id busTx l).symm⟩
  · rintro ⟨l, hl, hlive, rfl⟩
    exact (h.all l hl hlive).resolve_right List.not_mem_nil

/-- The edges are decoded to the live links, each once. -/
theorem flatMap_unlinks_perm {rels : List Rel} (hd : Drawable active links)
    (h : Drawn active links busTx links [] rels) :
    (rels.flatMap fun r => unlinks r.id).Perm (links.filter fun l => l.Live active) := by
  have hdecode : ∀ r ∈ rels, ∀ x, x ∈ unlinks r.id ↔ (x ∈ links ∧ x.Live active) ∧ idOf links x = r.id := by
    intro r hr x
    obtain ⟨l, hl, hlive, rfl⟩ := h.rel r hr
    rw [relOf_id]
    exact mem_unlinks hd hl hlive
  have hnodup : (rels.flatMap fun r => unlinks r.id).Nodup := by
    refine List.nodup_flatMap.mpr ⟨fun r hr => ?_, ?_⟩
    · obtain ⟨l, hl, hlive, rfl⟩ := h.rel r hr
      rw [relOf_id]
      exact unlinks_nodup hd hl hlive
    · refine (List.pairwise_map.mp h.distinct).imp_of_mem fun {r r'} hr hr' hne x hx hx' => hne ?_
      rw [← ((hdecode r hr x).mp hx).2, ← ((hdecode r' hr' x).mp hx').2]
  refine (List.perm_ext_iff_of_nodup hnodup (hd.nodup.filter _)).mpr fun x => ?_
  rw [List.mem_flatMap, List.mem_filter, decide_eq_true_iff]
  constructor
  · rintro ⟨r, hr, hx⟩
    exact ((hdecode r hr x).mp hx).1
  · rintro ⟨hx, hlive⟩
    obtain ⟨r, hr, hid⟩ := List.mem_map.mp ((mem_ids h).mpr ⟨x, hx, hlive, rfl⟩)
    exact ⟨r, hr, (hdecode r hr x).mpr ⟨⟨hx, hlive⟩, hid.symm⟩⟩

/-! ## Order -/

theorem Drawable.perm (hd : Drawable active links) (hp : links.Perm links') : Drawable active links' where
  nodup := hp.nodup_iff.mp hd.nodup
  plain := hd.plain
  proper l hl := hd.proper l (hp.mem_iff.mpr hl)

theorem mutual_perm (hp : links.Perm links') (l : SiteLink) : Mutual links l ↔ Mutual links' l :=
  (hp.map _).mem_iff

theorem idOf_perm (hp : links.Perm links') (l : SiteLink) : idOf links l = idOf links' l :=
  if_congr (mutual_perm hp l) rfl rfl

/-- Links of one pair have one shape. -/
theorem shapeOf_eq (hd : Drawable active links) (hl : l ∈ links) (hlive : l.Live active) (hx : x ∈ links)
    (hxlive : x.Live active) (h : busEdgeId x.src x.dst = busEdgeId l.src l.dst) :
    shapeOf links x = shapeOf links l := by
  have hmem : x ∈ unlinks (busEdgeId l.src l.dst) := h ▸ (mem_unlinks_bus hd hxlive).mpr (.inl rfl)
  rcases (mem_unlinks_bus hd hlive).mp hmem with rfl | rfl
  · rfl
  · exact if_congr (iff_of_true (mutual_swap hd hl hlive) ((mutual_iff hd hlive).mpr hx)) rfl rfl

theorem mem_pairNow (hd : Drawable active links) {e : String × Shape} :
    e ∈ pairNow active links ↔
      ∃ l ∈ links, l.Live active ∧ e = (busEdgeId l.src l.dst, shapeOf links l) := by
  have hlive : ∀ l, l ∈ links.filter (fun l => l.Live active) ↔ l ∈ links ∧ l.Live active := fun l => by
    rw [List.mem_filter, decide_eq_true_iff]
  constructor
  · intro he
    obtain ⟨l, hl, rfl⟩ := mem_setFields he
    exact ⟨l, ((hlive l).mp hl).1, ((hlive l).mp hl).2, rfl⟩
  · rintro ⟨l, hl, hll, rfl⟩
    obtain ⟨v, hv⟩ := @field_setFields _ _ (fun l : SiteLink => busEdgeId l.src l.dst) (shapeOf links) _ _
      ((hlive l).mpr ⟨hl, hll⟩)
    obtain ⟨x, hx, he⟩ := mem_setFields hv
    obtain ⟨hid, rfl⟩ := Prod.mk.inj he
    obtain ⟨hxl, hxlive⟩ := (hlive x).mp hx
    rw [← shapeOf_eq hd hl hll hxl hxlive hid.symm]
    exact hv

theorem pairNow_perm (hd : Drawable active links) (hp : links.Perm links') (e : String × Shape) :
    e ∈ pairNow active links ↔ e ∈ pairNow active links' := by
  have hshape : ∀ l, shapeOf links l = shapeOf links' l := fun l => if_congr (mutual_perm hp l) rfl rfl
  rw [mem_pairNow hd, mem_pairNow (hd.perm hp)]
  simp only [hp.mem_iff, hshape]

/-- A key with one value is looked up to it. -/
theorem lookup_iff_mem {β : Type} {m : List (String × β)} {k : String} {v : β}
    (h : ∀ v v', (k, v) ∈ m → (k, v') ∈ m → v = v') : m.lookup k = some v ↔ (k, v) ∈ m := by
  have hmem : ∀ v, m.lookup k = some v → (k, v) ∈ m := fun v hv => by
    obtain ⟨l₁, l₂, rfl, -⟩ := List.lookup_eq_some_iff.mp hv
    simp
  refine ⟨hmem v, fun hv => ?_⟩
  cases hlook : m.lookup k with
  | none => exact absurd (List.lookup_eq_none_iff.mp hlook _ hv) (by simp)
  | some v' => rw [h v' v (hmem v' hlook) hv]

theorem lookup_pairNow_perm (hd : Drawable active links) (hp : links.Perm links') (k : String) :
    (pairNow active links).lookup k = (pairNow active links').lookup k := by
  have hone : ∀ v v', (k, v) ∈ pairNow active links → (k, v') ∈ pairNow active links → v = v' := by
    intro v v' hv hv'
    obtain ⟨l, hl, hlive, he⟩ := (mem_pairNow hd).mp hv
    obtain ⟨x, hx, hxlive, he'⟩ := (mem_pairNow hd).mp hv'
    obtain ⟨hk, rfl⟩ := Prod.mk.inj he
    obtain ⟨hk', rfl⟩ := Prod.mk.inj he'
    exact shapeOf_eq hd hx hxlive hl hlive (hk.symm.trans hk')
  ext v
  rw [lookup_iff_mem hone, pairNow_perm hd hp, lookup_iff_mem]
  intro v v' hv hv'
  exact hone v v' ((pairNow_perm hd hp _).mpr hv) ((pairNow_perm hd hp _).mpr hv')

section Start

variable {reduced : Bool} {now : Int} {kind : TxKind} {tx tx' : List (String × BusTx)}

theorem lookup_startBusTx (busId k : String) : (startBusTx reduced now tx busId kind).lookup k =
    (tx.lookup k).or (if k = busId ∧ reduced = false then some ⟨kind, now⟩ else none) := by
  unfold startBusTx
  split
  · rename_i hsome
    by_cases hk : k = busId
    · rw [hk]
      cases htx : tx.lookup busId with
      | none => simp [htx] at hsome
      | some t => rfl
    · rw [if_neg fun h => hk h.1, Option.or_none]
  · rename_i hnone
    split
    · rename_i hred
      rw [if_neg fun h => by simp [hred] at h, Option.or_none]
    · rename_i hred
      rw [lookup_setField]
      by_cases hk : k = busId
      · have : tx.lookup busId = none := Option.not_isSome_iff_eq_none.mp hnone
        simp [hk, this, hred]
      · simp [hk]

/-- A pair has an animation after the comparison if it had one or one starts, whatever the order of the pairs. -/
theorem lookup_startAll {cond : String × Shape → Prop} [DecidablePred cond] (es : List (String × Shape)) (k : String) :
    (es.foldl (fun tx e => if cond e then startBusTx reduced now tx e.1 kind else tx) tx).lookup k =
      (tx.lookup k).or (if reduced = false ∧ ∃ e ∈ es, e.1 = k ∧ cond e then some ⟨kind, now⟩ else none) := by
  induction es generalizing tx with
  | nil => simp
  | cons e es ih =>
    have hcons : (∃ e' ∈ e :: es, e'.1 = k ∧ cond e') ↔ (e.1 = k ∧ cond e) ∨ ∃ e' ∈ es, e'.1 = k ∧ cond e' :=
      List.exists_mem_cons_iff _ _ _
    rw [List.foldl_cons, ih]
    simp only [hcons]
    by_cases he : cond e
    · rw [if_pos he, lookup_startBusTx, Option.or_assoc]
      congr 1
      by_cases hk : k = e.1
      · cases reduced <;> simp [hk, he]
      · simp only [hk, Ne.symm hk, false_and, false_or, if_false, Option.none_or]
    · simp only [he, and_false, false_or, if_false]

theorem startAll_congr {cond cond' : String × Shape → Prop} [DecidablePred cond] [DecidablePred cond']
    {es es' : List (String × Shape)} (htx : ∀ k, tx.lookup k = tx'.lookup k)
    (h : ∀ e, e ∈ es ∧ cond e ↔ e ∈ es' ∧ cond' e) (k : String) :
    (es.foldl (fun tx e => if cond e then startBusTx reduced now tx e.1 kind else tx) tx).lookup k =
      (es'.foldl (fun tx e => if cond' e then startBusTx reduced now tx e.1 kind else tx) tx').lookup k := by
  rw [lookup_startAll, lookup_startAll, htx]
  congr 1
  refine if_congr (and_congr_right fun _ => exists_congr fun e => ?_) rfl rfl
  rw [and_left_comm, h, and_left_comm]

theorem lookup_comparePairs_perm (hd : Drawable active links) (hp : links.Perm links') (st : BusState) (k : String) :
    (comparePairs reduced now active links st).busTx.lookup k =
      (comparePairs reduced now active links' st).busTx.lookup k := by
  unfold comparePairs
  dsimp only
  split
  · rfl
  · refine startAll_congr (startAll_congr (fun _ => rfl) fun e => ?_) (fun e => ?_) k
    · rw [pairNow_perm hd hp]
    · rw [lookup_pairNow_perm hd hp]

end Start

/-- Two edges that differ at most in which end of a bus is the source. -/
structure SameEdge (r r' : Rel) : Prop where
  id : r.id = r'.id
  bus : r.bus = r'.bus
  tx : r.tx = r'.tx
  ends : r.source = r'.source ∧ r.target = r'.target ∨
    r.bus = true ∧ r.source = r'.target ∧ r.target = r'.source

theorem sameEdge_relOf {busTx' : List (String × BusTx)} (hd : Drawable active links) (hp : links.Perm links')
    (htx : ∀ k, busTx.lookup k = busTx'.lookup k) (hl : l ∈ links) (hlive : l.Live active) (hx : x.Live active)
    (hid : idOf links l = idOf links' x) : SameEdge (relOf links busTx l) (relOf links' busTx' x) := by
  have hmem : x ∈ unlinks (idOf links l) := by
    rw [hid, ← idOf_perm hp]
    exact unlinks_self hd hx
  have hids : (relOf links busTx l).id = (relOf links' busTx' x).id := by
    rw [relOf_id, relOf_id, hid]
  rcases link_of_unlinks hd hlive hmem with rfl | ⟨hm, rfl⟩
  · by_cases hm : Mutual links x
    · have hm' := (mutual_perm hp x).mp hm
      rw [relOf, if_pos hm, relOf, if_pos hm'] at hids ⊢
      exact ⟨hids, rfl, htx _, .inl ⟨rfl, rfl⟩⟩
    · have hm' := fun h => hm ((mutual_perm hp x).mpr h)
      rw [relOf, if_neg hm, relOf, if_neg hm'] at hids ⊢
      exact ⟨hids, rfl, rfl, .inl ⟨rfl, rfl⟩⟩
  · -- the other link of the pair came first
    have hm' := (mutual_perm hp l.swap).mp (mutual_swap hd hl hlive)
    rw [relOf, if_pos hm, relOf, if_pos hm'] at hids ⊢
    refine ⟨hids, rfl, ?_, .inr ⟨rfl, rfl, rfl⟩⟩
    show busTx.lookup (busEdgeId l.src l.dst) = busTx'.lookup (busEdgeId l.dst l.src)
    rw [htx, busEdgeId_comm]

/-! ## Every link once -/

section Reconcile

variable {reduced : Bool} {now : Int} {st : BusState}

theorem drawn_reconcile (hd : Drawable active links) (hsplit : (reconcile reduced now active links st).1.NoSplit) :
    Drawn active links (comparePairs reduced now active links st).busTx links []
      (reconcile reduced now active links st).2 :=
  drawn_relsLoop hd hsplit hd.nodup fun _ h => absurd h List.not_mem_nil

/-- Two edges between the same two locations. -/
def SamePair (r r' : Rel) : Prop :=
  r.source = r'.source ∧ r.target = r'.target ∨ r.source = r'.target ∧ r.target = r'.source

theorem nid_inj {a b : String} (h : nid a = nid b) : a = b := by
  have := congrArg String.toList h
  exact String.toList_inj.mp (by simpa [nid, String.toList_append] using this)

/-- A bus and an arrow are never of one pair. -/
theorem not_samePair {rels : List Rel} (hd : Drawable active links) (h : Drawn active links busTx links [] rels)
    {r r' : Rel} (hr : r ∈ rels) (hr' : r' ∈ rels) (hbus : r.bus = true) (harrow : r'.bus = false) :
    ¬ SamePair r r' := by
  obtain ⟨l, hl, hlive, rfl⟩ := h.rel r hr
  obtain ⟨x, hx, hxlive, rfl⟩ := h.rel r' hr'
  have hm : Mutual links l := by
    by_contra hm
    simp [relOf, hm] at hbus
  have hmx : ¬ Mutual links x := fun hmx => by simp [relOf, hmx] at harrow
  rw [relOf, if_pos hm, relOf, if_neg hmx]
  rintro (⟨hsrc, hdst⟩ | ⟨hsrc, hdst⟩)
  · have hxl : x = l := SiteLink.ext (nid_inj hsrc).symm (nid_inj hdst).symm
    exact hmx (hxl ▸ hm)
  · have hxl : x = l.swap := SiteLink.ext (nid_inj hdst).symm (nid_inj hsrc).symm
    exact hmx (hxl ▸ mutual_swap hd hl hlive)

/-- **Every link is drawn once and can be undone**: where no pair is collapsing, the edges have distinct ids, deleting
    all of them unlinks each link between active locations once and no other, no pair has both a bus and an
    arrow, and another order of the links gives the same edges, up to the ends of a bus. -/
theorem rels_once (hd : Drawable active links) (hsplit : (reconcile reduced now active links st).1.NoSplit) :
    ((reconcile reduced now active links st).2.map Rel.id).Nodup ∧
      ((reconcile reduced now active links st).2.flatMap fun r => unlinks r.id).Perm
        (links.filter fun l => l.Live active) ∧
      (∀ r ∈ (reconcile reduced now active links st).2, ∀ r' ∈ (reconcile reduced now active links st).2,
        r.bus = true → r'.bus = false → ¬ SamePair r r') ∧
      ∀ links', links.Perm links' →
        OnePer SameEdge (reconcile reduced now active links st).2 (reconcile reduced now active links' st).2 := by
  have h := drawn_reconcile hd hsplit
  refine ⟨h.distinct, flatMap_unlinks_perm hd h, fun r hr r' hr' => not_samePair hd h hr hr', fun links' hp => ?_⟩
  have htx : ∀ k, (comparePairs reduced now active links st).busTx.lookup k =
      (comparePairs reduced now active links' st).busTx.lookup k := lookup_comparePairs_perm hd hp st
  have h' : Drawn active links' (comparePairs reduced now active links' st).busTx links' []
      (reconcile reduced now active links' st).2 :=
    drawn_reconcile (hd.perm hp) fun busId tx hbusTx => hsplit busId tx ((htx busId).trans hbusTx)
  refine OnePer.of_map_perm (f := Rel.id) (g := Rel.id) ?_ fun r hr r' hr' hid => ?_
  · refine (List.perm_ext_iff_of_nodup h.distinct h'.distinct).mpr fun id => ?_
    rw [mem_ids h, mem_ids h']
    simp only [hp.mem_iff, idOf_perm hp]
  · obtain ⟨l, hl, hlive, rfl⟩ := h.rel r hr
    obtain ⟨x, -, hxlive, rfl⟩ := h'.rel r' hr'
    rw [relOf_id, relOf_id] at hid
    exact sameEdge_relOf hd hp htx hl hlive hxlive hid

end Reconcile

/-- The map when the page opens. -/
def BusState.opened : BusState := ⟨[], false, []⟩

/-- A pair, an arrow and a dangling link. -/
def demoLinks : List SiteLink := [⟨"a", "b"⟩, ⟨"c", "b"⟩, ⟨"b", "a"⟩, ⟨"c", "z"⟩]

/-- Two links both ways and one alone are two edges that stand for three links. -/
theorem rels_once_demo :
    ((reconcile false 0 ["a", "b", "c"] demoLinks .opened).2.flatMap fun r => unlinks r.id).Perm
      [⟨"a", "b"⟩, ⟨"c", "b"⟩, ⟨"b", "a"⟩] := by
  have hd : Drawable ["a", "b", "c"] demoLinks := by
    refine ⟨by decide, fun id hid => ?_, by decide⟩
    simp only [List.mem_cons, List.not_mem_nil, or_false] at hid
    rcases hid with rfl | rfl | rfl <;> decide
  exact (@rels_once _ _ false 0 .opened hd fun busId tx h => by cases h).2.1

/-- A link of a location to itself is decoded twice. An id that holds the mark of the `both` set makes a bus of a link
    whose reverse is not there. -/
theorem rels_twice :
    (¬ ∀ active links st, links.Nodup → (∀ id ∈ active, '~' ∉ id.toList ∧ '>' ∉ id.toList) →
      (reconcile false 0 active links st).1.NoSplit →
      ((reconcile false 0 active links st).2.flatMap fun r => unlinks r.id).Perm
        (links.filter fun l => l.Live active)) ∧
      ¬ ∀ active links st, links.Nodup → (∀ id ∈ active, '~' ∉ id.toList) → (∀ l ∈ links, l.src ≠ l.dst) →
        (reconcile false 0 active links st).1.NoSplit →
        ((reconcile false 0 active links st).2.flatMap fun r => unlinks r.id).Perm
          (links.filter fun l => l.Live active) := by
  constructor
  · intro h
    have htwice : ¬ ((reconcile false 0 ["a"] [⟨"a", "a"⟩] .opened).2.flatMap fun r => unlinks r.id).Perm
        [⟨"a", "a"⟩] := by decide
    refine htwice (h ["a"] [⟨"a", "a"⟩] .opened (by decide) (fun id hid => ?_) fun busId tx h => by cases h)
    rw [List.mem_singleton.mp hid]
    decide
  · intro h
    have hmore : ¬ ((reconcile false 0 ["a>b", "c"] [⟨"c", "a>b"⟩, ⟨"a", "b>c"⟩] .opened).2.flatMap
        fun r => unlinks r.id).Perm [⟨"c", "a>b"⟩] := by decide
    refine hmore (h ["a>b", "c"] [⟨"c", "a>b"⟩, ⟨"a", "b>c"⟩] .opened (by decide) (fun id hid => ?_) (by decide)
      fun busId tx h => by cases h)
    rcases List.mem_pair.mp hid with rfl | rfl <;> decide

end Web
end BeautyAwg
