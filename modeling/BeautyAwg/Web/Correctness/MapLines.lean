import BeautyAwg.Web.MapLines
import BeautyAwg.Web.Correctness.GroupEdits
import BeautyAwg.Web.Correctness.SiteLinks

/-!
# `Web.Correctness.MapLines`: what the lines of the map stand for

Each access that the panel holds is behind one line, and each line has an id of its own (`lines_shown`). Removing
lines takes away what they stand for and nothing else, also when some of the requests fail (`delete_lines`).

## Contents
- **Ids.** `PlainIds`; `splitArrow_join`.
- **Requests.** `Has`, `Taken`; `taken_sendAll`, `taken_onEdgesDelete`.
- **Lines.** `Shows`, `Grouped`, `AccessLine`; `mem_accessLines`, `removals_clientLine`, `removals_groupLine`.
- **Results.** `lines_shown`, `delete_lines`.
-/

namespace BeautyAwg
namespace Web

open Awg Store Txn
open Requests (Fate)

/-! ## Ids -/

theorem splitArrow_plain {cs : List Char} (h : '=' ∉ cs) : splitArrow cs = [cs] := by
  induction cs with
  | nil => rfl
  | cons c cs ih =>
    rw [List.mem_cons, not_or] at h
    rw [splitArrow, ih h.2]
    exact fun cs' hc _ => h.1 hc.symm

theorem splitArrow_join {a b : List Char} (ha : '=' ∉ a) (hb : '=' ∉ b) :
    splitArrow (a ++ '=' :: '>' :: b) = [a, b] := by
  induction a with
  | nil =>
    show [] :: splitArrow b = _
    rw [splitArrow_plain hb]
  | cons c a ih =>
    rw [List.mem_cons, not_or] at ha
    rw [List.cons_append, splitArrow, ih ha.2]
    exact fun cs' hc _ => ha.1 hc.symm

/-- The text of an id is read back, and has no other characters than an id has. -/
structure PlainIds (text : Uuid → String) (parse : String → Option Uuid) : Prop where
  read : ∀ id, parse (text id) = some id
  plain : ∀ id, ∀ c ∈ (text id).toList, c.isAlphanum = true ∨ c = '-'

section Ids

variable {text : Uuid → String} {parse : String → Option Uuid} {a b : String}

theorem PlainIds.inj (h : PlainIds text parse) {id id' : Uuid} (he : text id = text id') : id = id' :=
  Option.some.inj ((h.read id).symm.trans (he ▸ h.read id'))

theorem PlainIds.not_mem (h : PlainIds text parse) (id : Uuid) {c : Char} (halnum : c.isAlphanum = false)
    (hdash : c ≠ '-') : c ∉ (text id).toList := by
  intro hc
  rcases h.plain id c hc with hplain | rfl
  · rw [halnum] at hplain
    cases hplain
  · exact hdash rfl

theorem edgePart_join (ha : '=' ∉ a.toList) (hb : '=' ∉ b.toList) :
    edgePart (a ++ "=>" ++ b) 0 = a ∧ edgePart (a ++ "=>" ++ b) 1 = b := by
  have hlist : (a ++ "=>" ++ b).toList = a.toList ++ '=' :: '>' :: b.toList := by simp [String.toList_append]
  simp [edgePart, hlist, splitArrow_join ha hb]

theorem unwrap_gid (id : String) : unwrap (gid id) = id := by simp [unwrap, gid, String.toList_append]

theorem isGroupId_gid (id : String) : isGroupId (gid id) = true := by simp [isGroupId, gid, String.toList_append]

theorem isGroupId_cid (id : String) : isGroupId (cid id) = false := by
  simp [isGroupId, cid, String.toList_append, List.isPrefixOf]

theorem isGroupId_nid (id : String) : isGroupId (nid id) = false := by
  simp [isGroupId, nid, String.toList_append, List.isPrefixOf]

theorem cid_inj {id id' : String} (h : cid id = cid id') : id = id' := by
  have := congrArg String.toList h
  simpa [cid, String.toList_append, String.toList_inj] using this

theorem gid_inj {id id' : String} (h : gid id = gid id') : id = id' := by
  rw [← unwrap_gid id, h, unwrap_gid]

/-- A device's line is no link. -/
theorem not_site_clientLine (h : PlainIds text parse) (c n : Uuid) :
    isBusEdge (clientLine text c n).id = false ∧ isLinkEdge (clientLine text c n).id = false := by
  have hcolon : ':' ∉ (clientLine text c n).id.toList := by
    simp only [clientLine, String.toList_append, List.mem_append, not_or]
    exact ⟨⟨h.not_mem c (by decide) (by decide), by decide⟩, h.not_mem n (by decide) (by decide)⟩
  constructor
  · refine Bool.eq_false_iff.mpr fun hp => hcolon ?_
    exact (List.isPrefixOf_iff_prefix.mp hp).subset (by decide)
  · refine Bool.eq_false_iff.mpr fun hp => hcolon ?_
    exact (List.isPrefixOf_iff_prefix.mp hp).subset (by decide)

end Ids

/-! ## Requests -/

/-- What a deletion is about is there. -/
def Has (t : Tables) : Op → Prop
  | .deleteGrant clientId nodeId => (clientId, nodeId) ∈ t.grants.map GrantRow.key
  | .deleteNodeLink srcId dstId => ⟨srcId, dstId⟩ ∈ t.links
  | _ => False

variable {text : Uuid → String} {parse : String → Option Uuid} {db db' : Db} {op w : Op} {q : Removal}

/-- A request takes away what it is about and nothing else. -/
theorem has_removal (hop : q.op parse = some op) (h : run apply op.body db = .ok ((), db')) :
    db'.nodes = db.nodes ∧ db'.clients = db.clients ∧ ∀ w, Has db'.toTables w ↔ Has db.toTables w ∧ w ≠ op := by
  cases q with
  | revoke clientId nodeId =>
    simp only [Removal.op, Option.bind_eq_bind, Option.bind_eq_some_iff, Option.some.injEq] at hop
    obtain ⟨c, -, n, -, rfl⟩ := hop
    rw [← run_write_eval h]
    refine ⟨rfl, rfl, fun w => ?_⟩
    cases w with
    | deleteGrant c' n' =>
      simp only [Has, Write.eval, List.mem_map, List.mem_filter, decide_eq_true_eq, ne_eq, Op.deleteGrant.injEq]
      constructor
      · rintro ⟨g, ⟨hg, hne⟩, hkey⟩
        exact ⟨⟨g, hg, hkey⟩, fun he => hne (hkey.trans (Prod.ext he.1 he.2))⟩
      · rintro ⟨⟨g, hg, hkey⟩, hne⟩
        exact ⟨g, ⟨hg, fun he => hne (Prod.mk.inj (hkey.symm.trans he))⟩, hkey⟩
    | deleteNodeLink => simp [Has, Write.eval]
    | _ => simp [Has]
  | unlink srcId dstId =>
    simp only [Removal.op, Option.bind_eq_bind, Option.bind_eq_some_iff, Option.some.injEq] at hop
    obtain ⟨a, -, b, -, rfl⟩ := hop
    rw [← run_write_eval h]
    refine ⟨rfl, rfl, fun w => ?_⟩
    cases w with
    | deleteNodeLink a' b' =>
      simp only [Has, Write.eval, db.wf.links_pkey.mem_erase_iff, ne_eq, Op.deleteNodeLink.injEq, LinkRow.mk.injEq]
      exact and_comm
    | deleteGrant => simp [Has, Write.eval]
    | _ => simp [Has]

/-- What became of the tables: at most what was asked for was taken away, and all of it if all requests went through. -/
structure Taken (asked : Op → Prop) (all : Bool) (t t' : Tables) : Prop where
  nodes : t'.nodes = t.nodes
  clients : t'.clients = t.clients
  less : ∀ w, Has t' w → Has t w
  kept : ∀ w, Has t w → ¬ asked w → Has t' w
  gone : all = true → ∀ w, asked w → ¬ Has t' w

theorem Taken.none {asked : Op → Prop} (t : Tables) : Taken asked false t t :=
  ⟨rfl, rfl, fun _ h => h, fun _ h _ => h, fun h => absurd h (by decide)⟩

/-- The requests for one edge. -/
theorem taken_sendAll (parse : String → Option Uuid) (fate : Nat → Fate) (qs : List Removal) (i : Nat) (db : Db) :
    Taken (fun w => ∃ q ∈ qs, q.op parse = some w) (sendAll parse fate i qs db).2 db.toTables
      (sendAll parse fate i qs db).1.toTables := by
  induction qs generalizing i db with
  | nil => exact ⟨rfl, rfl, fun _ h => h, fun _ h _ => h, fun _ w ⟨_, hq, _⟩ => absurd hq List.not_mem_nil⟩
  | cons q qs ih =>
    rw [sendAll]
    split
    · exact .none _
    · rename_i op hop
      split
      · exact .none _
      · exact .none _
      · rename_i db₁ hrun _
        obtain ⟨hnodes, hclients, hhas⟩ := has_removal hop hrun
        refine ⟨hnodes, hclients, fun w hw => ((hhas w).mp hw).1, fun w hw hnot => (hhas w).mpr ⟨hw, ?_⟩,
          fun h => absurd h Bool.false_ne_true⟩
        rintro rfl
        exact hnot ⟨q, List.mem_cons_self, hop⟩
      · rename_i db₁ hrun _
        obtain ⟨hnodes, hclients, hhas⟩ := has_removal hop hrun
        have hrest := ih (i + 1) db₁
        refine ⟨hrest.nodes.trans hnodes, hrest.clients.trans hclients, fun w hw => ((hhas w).mp (hrest.less w hw)).1,
          fun w hw hnot => hrest.kept w ((hhas w).mpr ⟨hw, ?_⟩) ?_, fun hall w hw hstill => ?_⟩
        · rintro rfl
          exact hnot ⟨q, List.mem_cons_self, hop⟩
        · rintro ⟨q', hq', hop'⟩
          exact hnot ⟨q', List.mem_cons_of_mem _ hq', hop'⟩
        · obtain ⟨q', hq', hop'⟩ := hw
          rcases List.mem_cons.mp hq' with rfl | hq'
          · -- it is gone after the first request and does not come back
            obtain rfl := Option.some.inj (hop.symm.trans hop')
            exact ((hhas _).mp (hrest.less _ hstill)).2 rfl
          · exact hrest.gone hall w ⟨q', hq', hop'⟩ hstill

/-- An edge that was removed, of those that the selection lets be removed, asks for this. -/
def Asks (text : Uuid → String) (parse : String → Option Uuid) (groups : List DeviceGroup)
    (selected : Option String) (r : Rel) (w : Op) : Prop :=
  inSelection text groups selected r = true ∧ ∃ q ∈ removals text groups r, q.op parse = some w

theorem taken_onEdgesDelete (text : Uuid → String) (parse : String → Option Uuid) (groups : List DeviceGroup)
    (selected : Option String) (fate : Rel → Nat → Fate) (removed : List Rel) (db : Db) :
    let out := onEdgesDelete text parse groups selected fate removed db
    Taken (fun w => ∃ r ∈ removed, Asks text parse groups selected r w) false db.toTables out.1.toTables ∧
      ∀ r ∈ removed, r ∉ out.2 → ∀ w, Asks text parse groups selected r w → ¬ Has out.1.toTables w := by
  induction removed generalizing db with
  | nil => exact ⟨.none _, fun r hr => absurd hr List.not_mem_nil⟩
  | cons r rs ih =>
    dsimp only
    rw [onEdgesDelete]
    split
    · rename_i hsel
      dsimp only
      -- the line's requests go out first, then those of the other lines
      have hsent := taken_sendAll parse (fate r) (removals text groups r) 0 db
      obtain ⟨hrest, hgone⟩ := ih (sendAll parse (fate r) 0 (removals text groups r) db).1
      refine ⟨⟨hrest.nodes.trans hsent.nodes, hrest.clients.trans hsent.clients,
        fun w hw => hsent.less w (hrest.less w hw), fun w hw hnot => hrest.kept w (hsent.kept w hw ?_) ?_,
        fun h => absurd h (by decide)⟩, fun x hx hok w hw => ?_⟩
      · exact fun hasked => hnot ⟨r, List.mem_cons_self, hsel, hasked⟩
      · rintro ⟨x, hx, hasked⟩
        exact hnot ⟨x, List.mem_cons_of_mem _ hx, hasked⟩
      · rcases List.mem_cons.mp hx with rfl | hx
        · -- the line is off the list of failed ones only if all its requests were done
          split at hok
          · rename_i hall
            exact fun hstill => hsent.gone hall w hw.2 (hrest.less w hstill)
          · exact absurd List.mem_cons_self hok
        · refine hgone x hx (fun hfailed => hok ?_) w hw
          split
          · exact hfailed
          · exact List.mem_cons_of_mem _ hfailed
    · rename_i hsel
      -- nothing is sent for a line that is not the selected card's
      obtain ⟨hrest, hgone⟩ := ih db
      refine ⟨⟨hrest.nodes, hrest.clients, hrest.less, fun w hw hnot => hrest.kept w hw ?_,
        fun h => absurd h (by decide)⟩, fun x hx hok w hw => ?_⟩
      · rintro ⟨x, hx, hasked⟩
        exact hnot ⟨x, List.mem_cons_of_mem _ hx, hasked⟩
      · rcases List.mem_cons.mp hx with rfl | hx
        · exact absurd hw.1 hsel
        · exact hgone x hx hok w hw

/-! ## Lines -/

/-- The page holds what the panel's lists have, in some order. -/
structure Shows (db : Db) (p : MapData) : Prop where
  clients : (p.clients.map MapClient.id).Perm (db.clients.map ClientRow.id)
  granted : ∀ c ∈ p.clients, c.granted.Perm ((db.grants.filter fun g => g.clientId = c.id).map GrantRow.nodeId)
  servers : p.servers.Perm ((db.nodes.filter fun n => n.status = .active).map NodeRow.id)
  links : p.links.Perm (db.links.map fun l => (l.src, l.dst))

/-- The groups of a page: ids of their own that are no part of an edge's id, and a device is in one group. -/
structure Grouped (groups : List DeviceGroup) : Prop where
  ids : (groups.map DeviceGroup.id).Nodup
  plain : ∀ g ∈ groups, '=' ∉ g.id.toList
  apart : ∀ g ∈ groups, ∀ g' ∈ groups, ∀ m ∈ g.members, m ∈ g'.members → g = g'

/-- There is such a location, and it is active. -/
def ActiveNode (t : Tables) (n : Uuid) : Prop := ∃ x ∈ t.nodes, x.id = n ∧ x.status = .active

/-- The lines that the tables and the groups call for. -/
inductive AccessLine (text : Uuid → String) (t : Tables) (groups : List DeviceGroup) : Rel → Prop
  | client {c n : Uuid} (hactive : ActiveNode t n) (hloose : ∀ g ∈ groups, c ∉ g.members)
      (hgrant : Has t (.deleteGrant c n)) : AccessLine text t groups (clientLine text c n)
  | group {g : DeviceGroup} {m n : Uuid} (hactive : ActiveNode t n) (hg : g ∈ groups) (hm : m ∈ g.members)
      (hgrant : Has t (.deleteGrant m n)) : AccessLine text t groups (groupLine text g.id n)

section Lines

variable {p : MapData} {c n : Uuid} {r : Rel}

theorem mem_servers (h : Shows db p) : n ∈ p.servers ↔ ActiveNode db.toTables n := by
  rw [h.servers.mem_iff, List.mem_map]
  simp only [List.mem_filter, decide_eq_true_eq, ActiveNode]
  constructor
  · rintro ⟨x, ⟨hx, hs⟩, hid⟩
    exact ⟨x, hx, hid, hs⟩
  · rintro ⟨x, hx, hid, hs⟩
    exact ⟨x, ⟨hx, hs⟩, hid⟩

theorem mem_granted_iff (h : Shows db p) {x : MapClient} (hx : x ∈ p.clients) :
    n ∈ x.granted ↔ Has db.toTables (.deleteGrant x.id n) := by
  rw [(h.granted x hx).mem_iff]
  simp only [List.mem_map, List.mem_filter, decide_eq_true_eq, Has, GrantRow.key, Prod.mk.injEq]
  constructor
  · rintro ⟨g, ⟨hg, hc⟩, hn⟩
    exact ⟨g, hg, hc, hn⟩
  · rintro ⟨g, hg, hc, hn⟩
    exact ⟨g, ⟨hg, hc⟩, hn⟩

/-- A grant is a listed device's. -/
theorem client_of_has (h : Shows db p) (hgrant : Has db.toTables (.deleteGrant c n)) :
    ∃ x ∈ p.clients, x.id = c := by
  obtain ⟨g, hg, hkey⟩ := List.mem_map.mp hgrant
  obtain ⟨rfl, -⟩ := Prod.mk.inj hkey
  exact List.mem_map.mp (h.clients.mem_iff.mpr (db.wf.grants_client_fkey g hg))

theorem mem_page_granted (h : Shows db p) : n ∈ p.granted c ↔ Has db.toTables (.deleteGrant c n) := by
  unfold MapData.granted
  cases hfind : p.clients.reverse.find? fun x => x.id = c with
  | none =>
    refine ⟨fun hn => absurd hn (by simp), fun hgrant => ?_⟩
    obtain ⟨x, hx, hid⟩ := client_of_has h hgrant
    exact absurd hid (by simpa using List.find?_eq_none.mp hfind x (List.mem_reverse.mpr hx))
  | some x =>
    have hx := List.mem_reverse.mp (List.mem_of_find?_eq_some hfind)
    have hid : x.id = c := by simpa using List.find?_some hfind
    subst hid
    exact mem_granted_iff h hx

theorem mem_liveGroups {g' : DeviceGroup} : g' ∈ p.liveGroups ↔ ∃ g ∈ p.groups, g'.id = g.id ∧
    g'.members = g.members.filter fun m => p.clients.any fun c => c.id = m := by
  simp only [MapData.liveGroups, List.mem_map]
  constructor
  · rintro ⟨g, hg, rfl⟩
    exact ⟨g, hg, rfl, rfl⟩
  · rintro ⟨g, hg, hid, hmembers⟩
    exact ⟨g, hg, by rw [← hid, ← hmembers]⟩

theorem mem_live {members : List Uuid} : c ∈ members.filter (fun m => p.clients.any fun x => x.id = m) ↔
    c ∈ members ∧ ∃ x ∈ p.clients, x.id = c := by
  simp only [List.mem_filter, List.any_eq_true, decide_eq_true_eq]

theorem mem_loose {x : MapClient} : x ∈ p.loose ↔ x ∈ p.clients ∧ ∀ g ∈ p.groups, x.id ∉ g.members := by
  rw [MapData.loose, List.mem_filter, decide_eq_true_eq, List.mem_flatMap]
  refine and_congr_right fun hx => ⟨fun hout g hg hm => hout ?_, ?_⟩
  · exact ⟨_, List.mem_map_of_mem hg, mem_live.mpr ⟨hm, x, hx, rfl⟩⟩
  · rintro hout ⟨g', hg', hm⟩
    obtain ⟨g, hg, -, hmembers⟩ := mem_liveGroups.mp hg'
    rw [hmembers, mem_live] at hm
    exact hout g hg hm.1

/-- The map draws the lines that the tables call for. -/
theorem mem_accessLines (h : Shows db p) : r ∈ accessLines text p ↔ AccessLine text db.toTables p.groups r := by
  rw [accessLines, List.mem_append, List.mem_flatMap, List.mem_flatMap]
  constructor
  · rintro (⟨x, hx, hr⟩ | ⟨g', hg', hr⟩)
    · obtain ⟨n, hn, rfl⟩ := List.mem_map.mp hr
      obtain ⟨hn, hserver⟩ := List.mem_filter.mp hn
      obtain ⟨hx, hout⟩ := mem_loose.mp hx
      exact .client ((mem_servers h).mp (of_decide_eq_true hserver)) hout ((mem_granted_iff h hx).mp hn)
    · obtain ⟨n, hn, rfl⟩ := List.mem_map.mp hr
      obtain ⟨hn, hserver⟩ := List.mem_filter.mp hn
      obtain ⟨g, hg, hid, hmembers⟩ := mem_liveGroups.mp hg'
      obtain ⟨m, hm, hgrant⟩ := mem_groupGrants.mp hn
      rw [hmembers, mem_live] at hm
      rw [hid]
      exact .group ((mem_servers h).mp (of_decide_eq_true hserver)) hg hm.1 ((mem_page_granted h).mp hgrant)
  · rintro (⟨hactive, hout, hgrant⟩ | @⟨g, m, n, hactive, hg, hm, hgrant⟩)
    · rename_i c n
      obtain ⟨x, hx, rfl⟩ := client_of_has h hgrant
      refine .inl ⟨x, mem_loose.mpr ⟨hx, hout⟩, List.mem_map_of_mem ?_⟩
      exact List.mem_filter.mpr ⟨(mem_granted_iff h hx).mpr hgrant, decide_eq_true ((mem_servers h).mpr hactive)⟩
    · obtain ⟨x, hx, hid⟩ := client_of_has h hgrant
      refine .inr ⟨_, List.mem_map_of_mem hg, List.mem_map_of_mem ?_⟩
      refine List.mem_filter.mpr ⟨mem_groupGrants.mpr ⟨m, ?_, (mem_page_granted h).mpr hgrant⟩,
        decide_eq_true ((mem_servers h).mpr hactive)⟩
      exact mem_live.mpr ⟨hm, x, hx, hid⟩

end Lines

/-! ### What a line asks for -/

section Decode

variable {groups : List DeviceGroup} {g : DeviceGroup} {c n : Uuid} {r : Rel}

theorem removals_clientLine (hids : PlainIds text parse) :
    removals text groups (clientLine text c n) = [.revoke (text c) (text n)] := by
  obtain ⟨hbus, hlink⟩ := not_site_clientLine hids c n
  obtain ⟨hfst, hsnd⟩ := edgePart_join (hids.not_mem c (by decide) (by decide)) (hids.not_mem n (by decide) (by decide))
  unfold removals
  rw [if_neg (by simp [clientLine, isGroupId_cid]), if_neg (by simp [hbus, hlink])]
  simp only [clientLine, hfst, hsnd]

theorem removals_groupLine (hids : PlainIds text parse) (hgroups : Grouped groups) (hg : g ∈ groups) :
    removals text groups (groupLine text g.id n) = g.members.map fun m => .revoke (text m) (text n) := by
  have hplain : '=' ∉ (gid g.id).toList := by
    simp only [gid, String.toList_append, List.mem_append, not_or]
    exact ⟨by decide, hgroups.plain g hg⟩
  obtain ⟨-, hsnd⟩ := edgePart_join hplain (hids.not_mem n (by decide) (by decide))
  have hsource : unwrap (groupLine text g.id n).source = g.id := unwrap_gid g.id
  have hfind : groups.find? (fun g' => g'.id = unwrap (groupLine text g.id n).source) = some g := by
    cases hfind : groups.find? fun g' => g'.id = unwrap (groupLine text g.id n).source with
    | none => exact absurd (decide_eq_true hsource.symm) (List.find?_eq_none.mp hfind g hg)
    | some g' =>
      have hfound := List.find?_some hfind
      have hid : g'.id = g.id := (of_decide_eq_true hfound).trans hsource
      rw [List.inj_on_of_nodup_map hgroups.ids (List.mem_of_find?_eq_some hfind) hg hid]
  unfold removals
  rw [if_pos (by simp [groupLine, isGroupId_gid]), hfind]
  simp only [groupLine, hsnd]

/-- The grants behind a device's line or a group's. -/
def Behind (text : Uuid → String) (groups : List DeviceGroup) (r : Rel) (c n : Uuid) : Prop :=
  r = clientLine text c n ∧ (∀ g ∈ groups, c ∉ g.members) ∨ ∃ g ∈ groups, c ∈ g.members ∧ r = groupLine text g.id n

theorem clientLine_inj (hids : PlainIds text parse) {c' n' : Uuid} (h : clientLine text c n = clientLine text c' n') :
    c = c' ∧ n = n' :=
  ⟨hids.inj (cid_inj (congrArg Rel.source h)), hids.inj (nid_inj (congrArg Rel.target h))⟩

theorem groupLine_inj (hids : PlainIds text parse) {id id' : String} {n' : Uuid}
    (h : groupLine text id n = groupLine text id' n') : id = id' ∧ n = n' :=
  ⟨gid_inj (congrArg Rel.source h), hids.inj (nid_inj (congrArg Rel.target h))⟩

theorem clientLine_ne_groupLine {id : String} {n' : Uuid} : clientLine text c n ≠ groupLine text id n' := by
  intro h
  have := isGroupId_cid (text c)
  rw [show cid (text c) = gid id from congrArg Rel.source h, isGroupId_gid] at this
  cases this

/-- A grant has one line. -/
theorem behind_unique (hgroups : Grouped groups) {r' : Rel} (h : Behind text groups r c n)
    (h' : Behind text groups r' c n) : r = r' := by
  rcases h with ⟨rfl, hloose⟩ | ⟨g, hg, hm, rfl⟩ <;> rcases h' with ⟨rfl, hloose'⟩ | ⟨g', hg', hm', rfl⟩
  · rfl
  · exact absurd hm' (hloose g' hg')
  · exact absurd hm (hloose' g hg)
  · rw [hgroups.apart g hg g' hg' c hm hm']

theorem accessLine_iff_behind {t : Tables} :
    AccessLine text t groups r ↔ ∃ c n, Behind text groups r c n ∧ ActiveNode t n ∧ Has t (.deleteGrant c n) := by
  constructor
  · rintro (⟨hactive, hloose, hgrant⟩ | @⟨g, m, n, hactive, hg, hm, hgrant⟩)
    · exact ⟨_, _, .inl ⟨rfl, hloose⟩, hactive, hgrant⟩
    · exact ⟨m, n, .inr ⟨g, hg, hm, rfl⟩, hactive, hgrant⟩
  · rintro ⟨c, n, ⟨rfl, hloose⟩ | ⟨g, hg, hm, rfl⟩, hactive, hgrant⟩
    · exact .client hactive hloose hgrant
    · exact .group hactive hg hm hgrant

/-- An access line asks for the grants that may be behind it. -/
theorem asked_of_behind (hids : PlainIds text parse) (hgroups : Grouped groups) {c₀ n₀ : Uuid}
    (hline : Behind text groups r c₀ n₀) {w : Op} :
    (∃ q ∈ removals text groups r, q.op parse = some w) ↔ ∃ c n, Behind text groups r c n ∧ w = .deleteGrant c n := by
  rcases hline with ⟨rfl, hloose⟩ | ⟨g, hg, hm, rfl⟩
  · rw [removals_clientLine hids]
    simp only [List.mem_singleton, exists_eq_left, Removal.op, hids.read, Option.bind_eq_bind, Option.bind_some,
      Option.some.injEq]
    constructor
    · rintro rfl
      exact ⟨c₀, n₀, .inl ⟨rfl, hloose⟩, rfl⟩
    · rintro ⟨c, n, ⟨hr, -⟩ | ⟨g, -, -, hr⟩, rfl⟩
      · obtain ⟨rfl, rfl⟩ := clientLine_inj hids hr
        rfl
      · exact absurd hr clientLine_ne_groupLine
  · rw [removals_groupLine hids hgroups hg]
    simp only [List.mem_map, exists_exists_and_eq_and, Removal.op, hids.read, Option.bind_eq_bind, Option.bind_some,
      Option.some.injEq]
    constructor
    · rintro ⟨m, hm, rfl⟩
      exact ⟨m, n₀, .inr ⟨g, hg, hm, rfl⟩, rfl⟩
    · rintro ⟨c, n, ⟨hr, -⟩ | ⟨g', hg', hm', hr⟩, rfl⟩
      · exact absurd hr.symm clientLine_ne_groupLine
      · obtain ⟨hid, rfl⟩ := groupLine_inj hids hr
        obtain rfl := List.inj_on_of_nodup_map hgroups.ids hg hg' hid
        exact ⟨c, hm', rfl⟩

/-- An access line is between no locations. -/
theorem unlinks_of_behind (hids : PlainIds text parse) (h : Behind text groups r c n) : unlinks r.id = [] := by
  have hnot : isBusEdge r.id = false ∧ isLinkEdge r.id = false := by
    rcases h with ⟨rfl, -⟩ | ⟨g, -, -, rfl⟩
    · exact not_site_clientLine hids c n
    · constructor <;> simp [isBusEdge, isLinkEdge, groupLine, gid, String.toList_append, List.isPrefixOf]
  simp [unlinks, hnot.1, hnot.2]

end Decode

/-! ### Lines between locations -/

section Sites

variable {active : List String} {links todo : List SiteLink} {busTx : List (String × BusTx)} {drawn : List String}
  {r : Rel}

/-- A line between locations says so, and which link it is of. -/
theorem mem_relsLoop (hr : r ∈ relsLoop active links busTx todo drawn) :
    ∃ l ∈ todo, r.source = nid l.src ∧ (r.id = busEdgeId l.src l.dst ∨ r.id = linkEdgeId l.src l.dst) := by
  induction todo generalizing drawn with
  | nil => exact absurd hr (by simp [relsLoop])
  | cons l todo ih =>
    have hskip : ∀ {drawn'}, r ∈ relsLoop active links busTx todo drawn' → ∃ x ∈ l :: todo, r.source = nid x.src ∧
        (r.id = busEdgeId x.src x.dst ∨ r.id = linkEdgeId x.src x.dst) := by
      intro drawn' h
      obtain ⟨x, hx, hrest⟩ := ih h
      exact ⟨x, List.mem_cons_of_mem _ hx, hrest⟩
    rw [relsLoop] at hr
    split at hr
    · exact hskip hr
    · dsimp only at hr
      split at hr
      · split at hr
        · exact hskip hr
        · rcases List.mem_cons.mp hr with rfl | hr
          · exact ⟨l, List.mem_cons_self, rfl, .inl rfl⟩
          · exact hskip hr
      · rcases List.mem_cons.mp hr with rfl | hr
        · exact ⟨l, List.mem_cons_self, rfl, .inr rfl⟩
        · exact hskip hr

end Sites

section Results

variable {groups : List DeviceGroup} {p p' : MapData} {busTx : List (String × BusTx)} {selected : Option String}
  {fate : Rel → Nat → Fate} {removed : List Rel} {r : Rel}

/-- What a line between locations asks for: to unlink what its id says. -/
theorem asked_of_site (hids : PlainIds text parse) {links : List (Uuid × Uuid)} {active : List String}
    (hr : r ∈ relsLoop active (links.map (siteLink text)) busTx (links.map (siteLink text)) []) {w : Op} :
    (∃ q ∈ removals text groups r, q.op parse = some w) ↔
      ∃ a b, siteLink text (a, b) ∈ unlinks r.id ∧ w = .deleteNodeLink a b := by
  obtain ⟨l', hl', hsource, hid⟩ := mem_relsLoop hr
  obtain ⟨⟨x, y⟩, -, rfl⟩ := List.mem_map.mp hl'
  have hsite : isBusEdge r.id = true ∨ isLinkEdge r.id = true := by
    rcases hid with hid | hid
    · exact .inl (hid ▸ isBusEdge_busEdgeId _ _)
    · exact .inr (hid ▸ isLinkEdge_linkEdgeId _ _)
  have hremovals : removals text groups r = (unlinks r.id).map fun l => .unlink l.src l.dst := by
    unfold removals
    rw [if_neg (by simp [hsource, isGroupId_nid]), if_pos hsite]
  -- the ends are printed ids
  have hends : ∀ l ∈ unlinks r.id, ∃ a b, l = siteLink text (a, b) := by
    have hx : '~' ∉ (text x).toList := hids.not_mem x (by decide) (by decide)
    have hy : '~' ∉ (text y).toList := hids.not_mem y (by decide) (by decide)
    intro l hl
    rcases hid with hid | hid
    · have hpair : l = siteLink text (x, y) ∨ l = siteLink text (y, x) := by
        rw [hid] at hl
        rcases unlinks_busEdgeId (a := text x) (b := text y) hx hy with h | h
        · simpa [siteLink, h] using hl
        · simpa [siteLink, h, or_comm] using hl
      exact hpair.elim (fun h => ⟨x, y, h⟩) fun h => ⟨y, x, h⟩
    · refine ⟨x, y, ?_⟩
      rw [hid] at hl
      simpa [siteLink, unlinks_linkEdgeId (a := text x) (b := text y) hx hy] using hl
  rw [hremovals]
  constructor
  · rintro ⟨q, hq, hop⟩
    obtain ⟨l, hl, rfl⟩ := List.mem_map.mp hq
    obtain ⟨a, b, rfl⟩ := hends l hl
    simp only [Removal.op, siteLink, hids.read, Option.bind_eq_bind, Option.bind_some, Option.some.injEq] at hop
    exact ⟨a, b, hl, hop.symm⟩
  · rintro ⟨a, b, hl, rfl⟩
    refine ⟨_, List.mem_map_of_mem hl, ?_⟩
    simp only [Removal.op, siteLink, hids.read, Option.bind_eq_bind, Option.bind_some]

theorem mem_links (h : Shows db p) {a b : Uuid} : (a, b) ∈ p.links ↔ Has db.toTables (.deleteNodeLink a b) := by
  rw [h.links.mem_iff, List.mem_map]
  constructor
  · rintro ⟨l, hl, he⟩
    obtain ⟨rfl, rfl⟩ := Prod.mk.inj he
    exact hl
  · exact fun hl => ⟨_, hl, rfl⟩

/-- The id of an access line says what it runs between. -/
theorem eq_of_id (hids : PlainIds text parse) (hgroups : Grouped p.groups) {r' : Rel} {c n c' n' : Uuid}
    (h : Behind text p.groups r c n) (h' : Behind text p.groups r' c' n') (he : r.id = r'.id) : r = r' := by
  have hplain : ∀ id, '=' ∉ (text id).toList := fun id => hids.not_mem id (by decide) (by decide)
  have hgid : ∀ g ∈ p.groups, '=' ∉ (gid g.id).toList := fun g hg => by
    simp only [gid, String.toList_append, List.mem_append, not_or]
    exact ⟨by decide, hgroups.plain g hg⟩
  -- the head of an edge's id, and what is after the arrow
  obtain ⟨head, hhead, hid, hkind⟩ : ∃ head, '=' ∉ head.toList ∧ r.id = head ++ "=>" ++ text n ∧
      (head = text c ∧ r = clientLine text c n ∨ ∃ g ∈ p.groups, head = gid g.id ∧ r = groupLine text g.id n) := by
    rcases h with ⟨rfl, -⟩ | ⟨g, hg, -, rfl⟩
    · exact ⟨text c, hplain c, rfl, .inl ⟨rfl, rfl⟩⟩
    · exact ⟨gid g.id, hgid g hg, rfl, .inr ⟨g, hg, rfl, rfl⟩⟩
  obtain ⟨head', hhead', hid', hkind'⟩ : ∃ head, '=' ∉ head.toList ∧ r'.id = head ++ "=>" ++ text n' ∧
      (head = text c' ∧ r' = clientLine text c' n' ∨
        ∃ g ∈ p.groups, head = gid g.id ∧ r' = groupLine text g.id n') := by
    rcases h' with ⟨rfl, -⟩ | ⟨g, hg, -, rfl⟩
    · exact ⟨text c', hplain c', rfl, .inl ⟨rfl, rfl⟩⟩
    · exact ⟨gid g.id, hgid g hg, rfl, .inr ⟨g, hg, rfl, rfl⟩⟩
  have hcolon : ∀ c id, text c ≠ gid id := fun c id h => by
    have hmem : ':' ∈ (text c).toList := by
      rw [h]
      simp [gid, String.toList_append]
    exact hids.not_mem c (by decide) (by decide) hmem
  obtain ⟨hfst, hsnd⟩ := edgePart_join hhead (hplain n)
  obtain ⟨hfst', hsnd'⟩ := edgePart_join hhead' (hplain n')
  rw [← hid, he, hid', hfst'] at hfst
  rw [← hid, he, hid', hsnd'] at hsnd
  obtain rfl := hids.inj hsnd
  rcases hkind with ⟨rfl, rfl⟩ | ⟨g, hg, rfl, rfl⟩ <;> rcases hkind' with ⟨rfl, rfl⟩ | ⟨g', hg', rfl, rfl⟩
  · rw [hids.inj hfst]
  · exact absurd hfst.symm (hcolon c g'.id)
  · exact absurd hfst (hcolon c' g.id)
  · rw [gid_inj hfst]

theorem nodup_accessLines (hids : PlainIds text parse) (hgroups : Grouped p.groups) (hshow : Shows db p) :
    (accessLines text p).Nodup := by
  have hclients : (p.clients.map MapClient.id).Nodup := hshow.clients.nodup_iff.mpr db.wf.clients_pkey
  -- a device has one grant for a node
  have hgranted : ∀ x ∈ p.clients, x.granted.Nodup := by
    intro x hx
    refine (hshow.granted x hx).nodup_iff.mpr (List.Nodup.map_on ?_ (db.wf.grants_pkey.of_map.filter _))
    intro g hg g' hg' hn
    have hg := List.mem_filter.mp hg
    have hg' := List.mem_filter.mp hg'
    have hc : g.clientId = g'.clientId := (of_decide_eq_true hg.2).trans (of_decide_eq_true hg'.2).symm
    exact List.inj_on_of_nodup_map db.wf.grants_pkey hg.1 hg'.1 (Prod.ext hc hn)
  refine List.nodup_append.mpr ⟨List.nodup_flatMap.mpr ⟨fun x hx => ?_, ?_⟩,
    List.nodup_flatMap.mpr ⟨fun g' hg' => ?_, ?_⟩, ?_⟩
  · -- the lines of one device differ in the node, those of two devices in the device
    exact ((hgranted x (mem_loose.mp hx).1).filter _).map fun n n' he => (clientLine_inj hids he).2
  · refine (List.pairwise_map.mp (hclients.sublist (List.filter_sublist.map _))).imp fun hne => ?_
    intro r hr hr'
    obtain ⟨n, -, rfl⟩ := List.mem_map.mp hr
    obtain ⟨n', -, he⟩ := List.mem_map.mp hr'
    exact hne (clientLine_inj hids he).1.symm
  · -- the same for the lines of groups
    exact ((nodup_eraseDups _).filter _).map fun n n' he => (groupLine_inj hids he).2
  · have hlive : (p.liveGroups.map DeviceGroup.id).Nodup := by
      rw [MapData.liveGroups, List.map_map]
      exact hgroups.ids
    refine (List.pairwise_map.mp hlive).imp fun hne => ?_
    intro r hr hr'
    obtain ⟨n, -, rfl⟩ := List.mem_map.mp hr
    obtain ⟨n', -, he⟩ := List.mem_map.mp hr'
    exact hne (groupLine_inj hids he).1.symm
  · intro r hr r' hr' he
    obtain ⟨x, -, hr⟩ := List.mem_flatMap.mp hr
    obtain ⟨g, -, hr'⟩ := List.mem_flatMap.mp hr'
    obtain ⟨n, -, rfl⟩ := List.mem_map.mp hr
    obtain ⟨n', -, rfl⟩ := List.mem_map.mp hr'
    exact clientLine_ne_groupLine he

theorem drawable_links (hids : PlainIds text parse) (hshow : Shows db p) :
    Drawable (p.servers.map text) (p.links.map (siteLink text)) where
  nodup := by
    refine List.Nodup.map_on ?_ (hshow.links.nodup_iff.mpr (List.Nodup.map_on ?_ db.wf.links_pkey))
    · intro l _ l' _ he
      exact Prod.ext (hids.inj (congrArg SiteLink.src he)) (hids.inj (congrArg SiteLink.dst he))
    · intro l _ l' _ he
      obtain ⟨hsrc, hdst⟩ := Prod.mk.inj he
      cases l
      cases l'
      exact congrArg₂ LinkRow.mk hsrc hdst
  plain id hid := by
    obtain ⟨n, -, rfl⟩ := List.mem_map.mp hid
    exact ⟨hids.not_mem n (by decide) (by decide), hids.not_mem n (by decide) (by decide)⟩
  proper l hl _ := by
    obtain ⟨x, hx, rfl⟩ := List.mem_map.mp hl
    obtain ⟨row, hrow, rfl⟩ := List.mem_map.mp (hshow.links.mem_iff.mp hx)
    exact fun he => db.wf.links_check row hrow (hids.inj he)

/-- **The map shows each access once.** When no pair of locations is collapsing, every line has an id of its own;
    behind each grant of an active location stands one line, the device's or its group's; and no line stands for
    nothing. -/
theorem lines_shown (hids : PlainIds text parse) (hgroups : Grouped p.groups) (hshow : Shows db p)
    (hsplit : ∀ id tx, busTx.lookup id = some tx → tx.kind ≠ .split) :
    ((lines text busTx p).map Rel.id).Nodup ∧
      (∀ c n, ActiveNode db.toTables n → Has db.toTables (.deleteGrant c n) →
        ∃! r, r ∈ accessLines text p ∧ Behind text p.groups r c n) ∧
      ∀ r ∈ accessLines text p, ∃ c n, Behind text p.groups r c n ∧ ActiveNode db.toTables n ∧
        Has db.toTables (.deleteGrant c n) := by
  have hbehind : ∀ r, r ∈ accessLines text p ↔
      ∃ c n, Behind text p.groups r c n ∧ ActiveNode db.toTables n ∧ Has db.toTables (.deleteGrant c n) :=
    fun r => (mem_accessLines hshow).trans accessLine_iff_behind
  refine ⟨?_, fun c n hactive hgrant => ?_, fun r hr => (hbehind r).mp hr⟩
  · have hd := drawable_links hids hshow
    have hdrawn : Drawn (p.servers.map text) (p.links.map (siteLink text)) busTx (p.links.map (siteLink text)) [] _ :=
      drawn_relsLoop hd hsplit hd.nodup (by simp)
    rw [lines, List.map_append]
    refine List.nodup_append.mpr ⟨List.Nodup.map_on (fun r hr r' hr' he => ?_) (nodup_accessLines hids hgroups hshow),
      hdrawn.distinct, fun id hid id' hid' he => ?_⟩
    · obtain ⟨c, n, hb, -⟩ := (hbehind r).mp hr
      obtain ⟨c', n', hb', -⟩ := (hbehind r').mp hr'
      exact eq_of_id hids hgroups hb hb' he
    · -- a link between locations unlinks something, an access line does not
      obtain ⟨r, hr, rfl⟩ := List.mem_map.mp hid
      obtain ⟨c, n, hb, -⟩ := (hbehind r).mp hr
      obtain ⟨l, hl, hlive, hlid⟩ := (mem_ids hdrawn).mp hid'
      have hmem := unlinks_self hd hlive
      rw [hlid, ← he, unlinks_of_behind hids hb] at hmem
      exact absurd hmem List.not_mem_nil
  · have hline : ∃ r, Behind text p.groups r c n := by
      by_cases hin : ∃ g ∈ p.groups, c ∈ g.members
      · obtain ⟨g, hg, hm⟩ := hin
        exact ⟨_, .inr ⟨g, hg, hm, rfl⟩⟩
      · exact ⟨_, .inl ⟨rfl, fun g hg hm => hin ⟨g, hg, hm⟩⟩⟩
    obtain ⟨r, hb⟩ := hline
    exact ⟨r, ⟨(hbehind r).mpr ⟨c, n, hb, hactive, hgrant⟩, hb⟩, fun r' hr' => behind_unique hgroups hr'.2 hb⟩

/-- What a removed line asks for, of either kind. -/
theorem asked_of_line (hids : PlainIds text parse) (hgroups : Grouped p.groups) (hshow : Shows db p)
    (hr : r ∈ lines text busTx p) {w : Op} (hw : ∃ q ∈ removals text p.groups r, q.op parse = some w) :
    (r ∈ accessLines text p ∧ ∃ c n, Behind text p.groups r c n ∧ w = .deleteGrant c n) ∨
      ∃ a b, siteLink text (a, b) ∈ unlinks r.id ∧ w = .deleteNodeLink a b := by
  rcases List.mem_append.mp hr with hr | hr
  · obtain ⟨c, n, hline, -, -⟩ := accessLine_iff_behind.mp ((mem_accessLines hshow).mp hr)
    exact .inl ⟨hr, (asked_of_behind hids hgroups hline).mp hw⟩
  · exact .inr ((asked_of_site hids hr).mp hw)

/-- **Removing lines** takes away the lines that were removed and no others. Whatever becomes of the requests, what
    the page shows afterwards it showed before, and each line that was not removed, or lies outside the selection,
    is still there. A line whose requests all went through is gone. The same holds of the links behind the lines
    between locations. -/
theorem delete_lines (hids : PlainIds text parse) (hgroups : Grouped p.groups) (hshow : Shows db p)
    (hremoved : ∀ r ∈ removed, r ∈ lines text busTx p) {failed : List Rel}
    (h : onEdgesDelete text parse p.groups selected fate removed db = (db', failed))
    (hshow' : Shows db' p') (hsame : p'.groups = p.groups) :
    (∀ r ∈ accessLines text p', r ∈ accessLines text p) ∧ (∀ l ∈ p'.links, l ∈ p.links) ∧
      (∀ r ∈ accessLines text p, (r ∈ removed → inSelection text p.groups selected r = false) →
        r ∈ accessLines text p') ∧
      (∀ l ∈ p.links, (∀ r ∈ removed, inSelection text p.groups selected r = true → siteLink text l ∉ unlinks r.id) →
        l ∈ p'.links) ∧
      ∀ r ∈ removed, inSelection text p.groups selected r = true → r ∉ failed →
        r ∉ accessLines text p' ∧ ∀ l ∈ p'.links, siteLink text l ∉ unlinks r.id := by
  obtain ⟨htaken, hgone⟩ := taken_onEdgesDelete text parse p.groups selected fate removed db
  rw [h] at htaken hgone
  have hactive : ∀ n, ActiveNode db'.toTables n ↔ ActiveNode db.toTables n := fun n => by
    rw [ActiveNode, htaken.nodes, ActiveNode]
  have hafter : ∀ r, r ∈ accessLines text p' ↔
      ∃ c n, Behind text p.groups r c n ∧ ActiveNode db.toTables n ∧ Has db'.toTables (.deleteGrant c n) := by
    intro r
    rw [mem_accessLines hshow', accessLine_iff_behind, hsame]
    simp only [hactive]
  have hbefore : ∀ r, r ∈ accessLines text p ↔
      ∃ c n, Behind text p.groups r c n ∧ ActiveNode db.toTables n ∧ Has db.toTables (.deleteGrant c n) :=
    fun r => (mem_accessLines hshow).trans accessLine_iff_behind
  refine ⟨fun r hr => ?_, fun l hl => ?_, fun r hr hkeep => ?_, fun l hl hkeep => ?_, fun r hr hsel hok => ⟨?_, ?_⟩⟩
  · obtain ⟨c, n, hb, hn, hgrant⟩ := (hafter r).mp hr
    exact (hbefore r).mpr ⟨c, n, hb, hn, htaken.less _ hgrant⟩
  · exact (mem_links hshow).mpr (htaken.less _ ((mem_links hshow').mp hl))
  · obtain ⟨c, n, hb, hn, hgrant⟩ := (hbefore r).mp hr
    refine (hafter r).mpr ⟨c, n, hb, hn, htaken.kept _ hgrant ?_⟩
    -- only the line itself asks for the grants behind it
    rintro ⟨r', hr', hsel, hasked⟩
    rcases asked_of_line hids hgroups hshow (hremoved r' hr') hasked with ⟨-, c', n', hb', he⟩ | ⟨a, b, -, he⟩
    · obtain ⟨rfl, rfl⟩ := Op.deleteGrant.inj he
      obtain rfl := behind_unique hgroups hb hb'
      rw [hkeep hr'] at hsel
      cases hsel
    · exact absurd he (by simp)
  · refine (mem_links hshow').mpr (htaken.kept _ ((mem_links hshow).mp hl) ?_)
    rintro ⟨r', hr', hsel, hasked⟩
    rcases asked_of_line hids hgroups hshow (hremoved r' hr') hasked with ⟨-, c', n', -, he⟩ | ⟨a, b, hmem, he⟩
    · exact absurd he (by simp)
    · obtain ⟨ha, hb⟩ := Op.deleteNodeLink.inj he
      exact hkeep r' hr' hsel (by rw [← Prod.mk.eta (p := l), ha, hb]; exact hmem)
  · intro hstill
    obtain ⟨c, n, hb, hn, hgrant⟩ := (hafter r).mp hstill
    exact hgone r hr hok _ ⟨hsel, (asked_of_behind hids hgroups hb).mpr ⟨c, n, hb, rfl⟩⟩ hgrant
  · intro l hl hmem
    rcases List.mem_append.mp (hremoved r hr) with haccess | hsite
    · obtain ⟨c, n, hb, -, -⟩ := (hbefore r).mp haccess
      rw [unlinks_of_behind hids hb] at hmem
      exact absurd hmem List.not_mem_nil
    · exact hgone r hr hok _ ⟨hsel, (asked_of_site hids hsite).mpr ⟨l.1, l.2, hmem, rfl⟩⟩ ((mem_links hshow').mp hl)

end Results

/-! ### A group and a device -/

/-- The lists in the order of the tables. -/
def listed (db : Db) (groups : List DeviceGroup) : MapData where
  clients := db.clients.map fun c => ⟨c.id, nodesOf db c.id⟩
  servers := (db.nodes.filter fun n => n.status = .active).map NodeRow.id
  links := db.links.map fun l => (l.src, l.dst)
  groups := groups

theorem shows_listed (db : Db) (groups : List DeviceGroup) : Shows db (listed db groups) where
  clients := by simp [listed, Function.comp_def]
  granted x hx := by
    obtain ⟨c, -, rfl⟩ := List.mem_map.mp hx
    exact listed_nodesOf db c.id
  servers := .refl _
  links := .refl _

/-- Ids printed and read in decimal. -/
def readId (s : String) : Option Uuid :=
  if s ≠ "" ∧ s.toList.all Char.isDigit = true then some (Nat.ofDigitChars 10 s.toList 0) else none

theorem plainIds_repr : PlainIds Nat.repr readId where
  read id := by
    have hdigits : ∀ c ∈ (Nat.repr id).toList, c.isDigit = true := fun c hc =>
      Nat.isDigit_of_mem_toDigits (by decide) (by decide) (Nat.toList_repr ▸ hc)
    have hne : Nat.repr id ≠ "" := by
      intro he
      exact Nat.toDigits_ne_nil (Nat.toList_repr ▸ congrArg String.toList he)
    rw [readId, if_pos ⟨hne, List.all_eq_true.mpr hdigits⟩, Nat.toList_repr,
      Nat.ofDigitChars_toDigits (by decide) (by decide)]
  plain id c hc := by
    rw [Nat.toList_repr] at hc
    have hdigit := Nat.isDigit_of_mem_toDigits (by decide) (by decide) hc
    exact .inl (by simp [Char.isAlphanum, hdigit])

/-- A group with one device. -/
def kids : List DeviceGroup := [⟨"kids", [2]⟩]

theorem grouped_kids : Grouped kids where
  ids := by decide
  plain g hg := by
    obtain rfl := List.mem_singleton.mp hg
    decide
  apart g hg g' hg' _ _ _ := (List.mem_singleton.mp hg).trans (List.mem_singleton.mp hg').symm

/-- A group's line and a device's line to the same location. -/
theorem lines_shown_kids : ∃ db : Db, Has db.toTables (.deleteGrant 3 4) ∧
    ∃! r, r ∈ accessLines Nat.repr (listed db kids) ∧ Behind Nat.repr kids r 3 4 := by
  have hrun : ((runAll apply Op.body (fun _ _ => true) (Db.boot demoHub "")
      (groupRun [.setGrant 2 4, .setGrant 3 4])).any fun db =>
        decide ((3, 4) ∈ db.grants.map GrantRow.key) &&
        db.nodes.any fun n => n.id = 4 && n.status = .active) = true := by
    decide +kernel
  obtain ⟨db, -, hdb⟩ := (Option.any_eq_true _ _).mp hrun
  simp only [Bool.and_eq_true, decide_eq_true_eq, List.any_eq_true] at hdb
  obtain ⟨hgrant, n, hn, hid, hactive⟩ := hdb
  have hnone : ∀ id tx, ([] : List (String × BusTx)).lookup id = some tx → tx.kind ≠ .split := by simp
  have hshown := lines_shown plainIds_repr grouped_kids (shows_listed db kids) hnone
  exact ⟨db, hgrant, hshown.2.1 3 4 ⟨n, hn, hid, hactive⟩ hgrant⟩

/-- The card of the group's device is selected. The group's line is removed while the other device's stays. -/
theorem delete_lines_kids : ∃ db db' : Db,
    onEdgesDelete Nat.repr readId kids (some (cid "2")) (fun _ _ => .done) [groupLine Nat.repr "kids" 4] db =
      (db', []) ∧
    groupLine Nat.repr "kids" 4 ∈ accessLines Nat.repr (listed db kids) ∧
    groupLine Nat.repr "kids" 4 ∉ accessLines Nat.repr (listed db' kids) ∧
    clientLine Nat.repr 3 4 ∈ accessLines Nat.repr (listed db' kids) := by
  have hrun : ((runAll apply Op.body (fun _ _ => true) (Db.boot demoHub "")
      (groupRun [.setGrant 2 4, .setGrant 3 4])).any fun db =>
        decide ((2, 4) ∈ db.grants.map GrantRow.key ∧ (3, 4) ∈ db.grants.map GrantRow.key) &&
        (db.nodes.any fun n => n.id = 4 && n.status = .active) &&
        (onEdgesDelete Nat.repr readId kids (some (cid "2")) (fun _ _ => .done)
          [groupLine Nat.repr "kids" 4] db).2.isEmpty) = true := by decide +kernel
  obtain ⟨db, -, hdb⟩ := (Option.any_eq_true _ _).mp hrun
  simp only [Bool.and_eq_true, decide_eq_true_eq, List.any_eq_true] at hdb
  obtain ⟨⟨⟨hgroup, hclient⟩, n, hn, hid, hstatus⟩, hfailed⟩ := hdb
  obtain ⟨db', hdb'⟩ : ∃ db', onEdgesDelete Nat.repr readId kids (some (cid "2")) (fun _ _ => .done)
      [groupLine Nat.repr "kids" 4] db = (db', []) := by
    cases hout : onEdgesDelete Nat.repr readId kids (some (cid "2")) (fun _ _ => .done)
      [groupLine Nat.repr "kids" 4] db with
    | mk db' failed =>
      rw [hout] at hfailed
      exact ⟨db', congrArg (Prod.mk db') (List.isEmpty_iff.mp hfailed)⟩
  have hactive : ActiveNode db.toTables 4 := ⟨n, hn, hid, hstatus⟩
  -- the group's line is there, and so is that of a device outside the group
  have hline : groupLine Nat.repr "kids" 4 ∈ accessLines Nat.repr (listed db kids) :=
    (mem_accessLines (shows_listed db kids)).mpr
      (.group (g := ⟨"kids", [2]⟩) (m := 2) hactive List.mem_cons_self List.mem_cons_self hgroup)
  have hloose : ∀ g ∈ kids, 3 ∉ g.members := by decide
  have hown : clientLine Nat.repr 3 4 ∈ accessLines Nat.repr (listed db kids) :=
    (mem_accessLines (shows_listed db kids)).mpr (.client hactive hloose hclient)
  have hremoved : ∀ r ∈ [groupLine Nat.repr "kids" 4], r ∈ lines Nat.repr [] (listed db kids) := fun r hr =>
    List.mem_append_left _ (List.mem_singleton.mp hr ▸ hline)
  obtain ⟨-, -, hkept, -, hgone⟩ := delete_lines plainIds_repr grouped_kids (shows_listed db kids) hremoved hdb'
    (shows_listed db' kids) rfl
  refine ⟨db, db', hdb', hline, (hgone _ List.mem_cons_self rfl List.not_mem_nil).1, hkept _ hown fun hr => ?_⟩
  exact absurd (List.mem_singleton.mp hr) clientLine_ne_groupLine

end Web
end BeautyAwg
