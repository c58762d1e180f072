import Mathlib.Data.List.Perm.Lattice
import BeautyAwg.Resolver.Routes

/-!
# `Resolver.Correctness.Pick`: longest-suffix resolution

`LongestUpstream` says what a query is to be sent to: the upstream of a longest domain that the name is under.
Whatever orders the resolver ranges in, it returns one of these and can return each (`resolves_iff`,
`upstream_iff`). With domains that differ as `SetRoutes` compares them there is only one (`pick_longest`).

## Contents
- **Specification.** `LongestUpstream`.
- **Resolution.** `resolves_iff`, `upstream_iff`; `Claims`, `mem_domainRows`.
- **Spelling.** `Respelled`, `normal_respelled`.
- **One upstream.** `pick_longest`.
-/

namespace BeautyAwg
namespace Resolver

open Store LongestKey

variable {byDomain byDomain' : List (String × String)} {default name qname out out' : String} {t : Tables}

/-! ## Specification -/

/-- The upstream of a longest domain that the name is under, else the default. -/
def LongestUpstream (byDomain : List (String × String)) (default name out : String) : Prop :=
  (∃ e ∈ byDomain, Under (normal e.1) name ∧
    (∀ e' ∈ byDomain, Under (normal e'.1) name → byteLen (normal e'.1) ≤ byteLen (normal e.1)) ∧
      out = withPort e.2) ∨
  (∀ e ∈ byDomain, ¬ Under (normal e.1) name) ∧ out = defaultUpstream default

/-- Domains of one length that a name is under are one domain. -/
theorem eq_of_under {d d' : String} (h : Under d name) (h' : Under d' name) (hlen : byteLen d = byteLen d') :
    d = d' :=
  String.toList_injective (eq_of_captures Char.utf8Size_pos h h' hlen)

/-- Of two domains that a name is under the longer is under the shorter. -/
theorem under_of_longer {d d' : String} (h : Under d name) (h' : Under d' name) (hlen : byteLen d ≤ byteLen d') :
    Under d d' :=
  Captures.of_longer Char.utf8Size_pos h h' hlen

/-- The specification reads the domains and servers only, however often and in whichever order they stand. -/
theorem LongestUpstream.congr (hsub : ∀ e ∈ byDomain', e ∈ byDomain)
    (hkeys : ∀ e ∈ byDomain, ∃ e' ∈ byDomain', e'.1 = e.1) (h : LongestUpstream byDomain' default name out) :
    LongestUpstream byDomain default name out := by
  rcases h with ⟨e, he, hunder, hmax, hout⟩ | ⟨hnone, hout⟩
  · refine .inl ⟨e, hsub e he, hunder, fun x hx hxu => ?_, hout⟩
    obtain ⟨x', hx', hkey⟩ := hkeys x hx
    rw [← hkey] at hxu ⊢
    exact hmax x' hx' hxu
  · refine .inr ⟨fun x hx hxu => ?_, hout⟩
    obtain ⟨x', hx', hkey⟩ := hkeys x hx
    rw [← hkey] at hxu
    exact hnone x' hx' hxu

/-! ## Resolution -/

theorem perm_erase_concat {α : Type} [BEq α] [LawfulBEq α] {l : List α} {a : α} (h : a ∈ l) :
    (l.erase a ++ [a]).Perm l :=
  (List.perm_append_singleton a _).trans (List.perm_cons_erase h).symm

/-- What a field of the routing comes from. -/
theorem mem_setRoutes {f : String × String} (h : f ∈ (setRoutes byDomain default).byDomain) :
    ∃ e ∈ byDomain, f = (normal e.1, withPort e.2) := mem_setFields h

/-- Every domain has its field. -/
theorem field_setRoutes {e : String × String} (he : e ∈ byDomain) :
    ∃ v, (normal e.1, v) ∈ (setRoutes byDomain default).byDomain := field_setFields (r := e) he

/-- The domain that is ranged over last decides its field. -/
theorem last_setRoutes {e : String × String} {v : String}
    (h : (normal e.1, v) ∈ (setRoutes (byDomain ++ [e]) default).byDomain) : v = withPort e.2 :=
  last_setFields (r := e) (fun e => normal e.1) (fun e => withPort e.2) h

/-- What `pick` returns, in whatever order the fields stand. -/
theorem pick_cases (rt : Routing) (qname : String) :
    (∃ f ∈ rt.byDomain, Under f.1 (normal qname) ∧
      (∀ f' ∈ rt.byDomain, Under f'.1 (normal qname) → byteLen f'.1 ≤ byteLen f.1) ∧ pick rt qname = f.2) ∨
    (∀ f ∈ rt.byDomain, ¬ Under f.1 (normal qname)) ∧ pick rt qname = rt.upstream := by
  have hcases := @longest_cases _ _ (fun d => Under d (normal qname)) _ byteLen rt.byDomain rt.upstream
  exact hcases

/-- What the resolver returns is the upstream of a longest domain. -/
theorem longest_of_resolves (h : Resolves byDomain default qname out) :
    LongestUpstream byDomain default (normal qname) out := by
  obtain ⟨es, fields, hes, hfields, rfl⟩ := h
  have hfrom : ∀ f ∈ fields, ∃ e ∈ byDomain, f = (normal e.1, withPort e.2) := by
    intro f hf
    obtain ⟨e, he, heq⟩ := mem_setRoutes (hfields.mem_iff.mp hf)
    exact ⟨e, hes.mem_iff.mp he, heq⟩
  have hfield : ∀ e ∈ byDomain, ∃ v, (normal e.1, v) ∈ fields := by
    intro e he
    obtain ⟨v, hv⟩ := field_setRoutes (hes.mem_iff.mpr he)
    exact ⟨v, hfields.mem_iff.mpr hv⟩
  rcases pick_cases ⟨fields, (setRoutes es default).upstream⟩ qname with ⟨f, hf, hunder, hmax, hout⟩ | ⟨hnone, hout⟩
  · obtain ⟨e, he, rfl⟩ := hfrom f hf
    refine .inl ⟨e, he, hunder, fun e' he' hunder' => ?_, hout⟩
    obtain ⟨v, hv⟩ := hfield e' he'
    exact hmax (normal e'.1, v) hv hunder'
  · refine .inr ⟨fun e he hunder => ?_, hout⟩
    obtain ⟨v, hv⟩ := hfield e he
    exact hnone (normal e.1, v) hv hunder

/-- Each longest domain's upstream can be returned: when the map is ranged over with this domain last. -/
theorem resolves_of_longest (h : LongestUpstream byDomain default (normal qname) out) :
    Resolves byDomain default qname out := by
  rcases h with ⟨e, he, hunder, hmax, rfl⟩ | ⟨hnone, rfl⟩
  · -- with its entry last no other entry for the same domain overwrites the server
    have hperm := perm_erase_concat he
    refine ⟨byDomain.erase e ++ [e], _, hperm, List.Perm.refl _, ?_⟩
    obtain ⟨v, hv⟩ := @field_setRoutes _ default _ (hperm.mem_iff.mpr he)
    rcases pick_cases (setRoutes (byDomain.erase e ++ [e]) default) qname with
      ⟨f, hf, hunder', hmax', hout⟩ | ⟨hnone, -⟩
    · obtain ⟨r, hr, rfl⟩ := mem_setRoutes hf
      have hle := hmax r (hperm.mem_iff.mp hr) hunder'
      have hge := hmax' (normal e.1, v) hv hunder
      have hkey : normal r.1 = normal e.1 := eq_of_under hunder' hunder (le_antisymm hle hge)
      rw [hkey] at hf
      exact ((last_setRoutes hf).symm.trans hout.symm)
    · exact absurd hunder (hnone (normal e.1, v) hv)
  · refine ⟨byDomain, _, List.Perm.refl _, List.Perm.refl _, ?_⟩
    rcases pick_cases (setRoutes byDomain default) qname with ⟨f, hf, hunder, -⟩ | ⟨-, hout⟩
    · obtain ⟨e, he, rfl⟩ := mem_setRoutes hf
      exact absurd hunder (hnone e he)
    · exact hout.symm

/-- **Resolution.** The upstreams that a query can be sent to are those of the longest domains. -/
theorem resolves_iff : Resolves byDomain default qname out ↔ LongestUpstream byDomain default (normal qname) out :=
  ⟨longest_of_resolves, resolves_of_longest⟩

/-- The map that `DomainRoutes` fills from rows in this order. -/
def routesOf (rows : List (String × String)) : List (String × String) :=
  rows.foldl (fun m r => setField m r.1 r.2) []

theorem mem_routesOf {rows : List (String × String)} {f : String × String} (h : f ∈ routesOf rows) : f ∈ rows := by
  obtain ⟨r, hr, rfl⟩ := mem_setFields h
  exact hr

theorem field_routesOf {rows : List (String × String)} {r : String × String} (hr : r ∈ rows) :
    ∃ f ∈ routesOf rows, f.1 = r.1 := by
  obtain ⟨v, hv⟩ : ∃ v, (r.1, v) ∈ routesOf rows := field_setFields hr
  exact ⟨_, hv, rfl⟩

theorem last_routesOf {rows : List (String × String)} {r : String × String} : r ∈ routesOf (rows ++ [r]) := by
  obtain ⟨v, hv⟩ : ∃ v, (r.1, v) ∈ routesOf (rows ++ [r]) := field_setFields (by simp)
  rw [last_setFields Prod.fst Prod.snd hv] at hv
  exact hv

/-- The same of the rows of the database. -/
theorem upstream_iff :
    Upstream t default qname out ↔ LongestUpstream (domainRows t) default (normal qname) out := by
  constructor
  · rintro ⟨byDomain, ⟨rows, hperm, rfl⟩, hres⟩
    refine (longest_of_resolves hres).congr (fun f hf => hperm.mem_iff.mp (mem_routesOf hf)) fun r hr => ?_
    exact field_routesOf (hperm.mem_iff.mpr hr)
  · rintro (⟨r, hr, hunder, hmax, rfl⟩ | ⟨hnone, rfl⟩)
    · -- the query returns this row last
      have hperm := perm_erase_concat hr
      refine ⟨_, ⟨(domainRows t).erase r ++ [r], hperm, rfl⟩, resolves_of_longest (.inl ?_)⟩
      exact ⟨r, last_routesOf, hunder, fun f hf => hmax f (hperm.mem_iff.mp (mem_routesOf hf)), rfl⟩
    · refine ⟨_, ⟨domainRows t, List.Perm.refl _, rfl⟩, resolves_of_longest (.inr ⟨fun f hf => ?_, rfl⟩)⟩
      exact hnone f (mem_routesOf hf)

/-- Some upstream is returned. -/
theorem upstream_exists (t : Tables) (default qname : String) : ∃ out, Upstream t default qname out :=
  ⟨_, _, ⟨domainRows t, List.Perm.refl _, rfl⟩, _, _, List.Perm.refl _, List.Perm.refl _, rfl⟩

/-- The node is active, has a DNS server and has been entered this domain. -/
structure Claims (t : Tables) (n : NodeRow) (domain : String) : Prop where
  mem : n ∈ t.nodes
  active : n.status = .active
  dns : n.dns ≠ ""
  row : ⟨n.id, domain⟩ ∈ t.domains

/-- A row is a domain that a node claims, with the node's server. -/
theorem mem_domainRows (wf : t.Constraints) {r : String × String} :
    r ∈ domainRows t ↔ ∃ n, Claims t n r.1 ∧ r.2 = n.dns := by
  unfold domainRows
  rw [List.mem_filterMap]
  constructor
  · rintro ⟨d, hd, hr⟩
    obtain ⟨n, hn, rfl⟩ := Option.map_eq_some_iff.mp hr
    have hfound := List.find?_some hn
    obtain ⟨hid, hactive, hdns⟩ := of_decide_eq_true hfound
    refine ⟨n, ⟨List.mem_of_find?_eq_some hn, hactive, hdns, ?_⟩, rfl⟩
    show DomainRow.mk n.id d.domain ∈ t.domains
    rw [hid]
    exact hd
  · rintro ⟨n, ⟨hn, hactive, hdns, hrow⟩, hr⟩
    have hsome : (t.nodes.find? fun m => m.id = n.id ∧ m.status = .active ∧ m.dns ≠ "").isSome = true :=
      List.find?_isSome.mpr ⟨n, hn, decide_eq_true ⟨rfl, hactive, hdns⟩⟩
    obtain ⟨m, hm⟩ := Option.isSome_iff_exists.mp hsome
    have hfound := List.find?_some hm
    obtain rfl := node_eq_of_id wf (List.mem_of_find?_eq_some hm) hn (of_decide_eq_true hfound).1
    exact ⟨_, hrow, Option.map_eq_some_iff.mpr ⟨m, hm, Prod.ext rfl hr.symm⟩⟩

/-! ## Spelling -/

/-- The same name up to the case of ASCII letters and a final dot. -/
def Respelled (s s' : String) : Prop :=
  (trimDot s).toList.map Char.toLower = (trimDot s').toList.map Char.toLower

instance (s s' : String) : Decidable (Respelled s s') := inferInstanceAs (Decidable (_ = _))

theorem normal_respelled {s s' : String} (h : Respelled s s') : normal s = normal s' := by
  have hlower : ∀ cs : List Char, cs.map Unicode.toLower = (cs.map Char.toLower).map Unicode.toLower := by
    intro cs
    rw [List.map_map]
    exact List.map_congr_left fun c _ => (Unicode.toLower_ascii c).symm
  unfold normal Unicode.lowerString
  rw [hlower, h, ← hlower]

/-! ## One upstream -/

/-- Domains that are told apart have one longest among them. -/
theorem LongestUpstream.unique (hdistinct : (byDomain.map fun e => normal e.1).Nodup)
    (h : LongestUpstream byDomain default name out) (h' : LongestUpstream byDomain default name out') :
    out = out' := by
  rcases h with ⟨e, he, hunder, hmax, rfl⟩ | ⟨hnone, rfl⟩ <;>
    rcases h' with ⟨e', he', hunder', hmax', rfl⟩ | ⟨hnone', rfl⟩
  · have hlen := le_antisymm (hmax' e he hunder) (hmax e' he' hunder')
    have hkey := eq_of_under hunder hunder' hlen
    rw [List.inj_on_of_nodup_map hdistinct he he' hkey]
  · exact absurd hunder (hnone' e he)
  · exact absurd hunder' (hnone e' he')
  · rfl

/-- The specification compares domains by their normal form only. -/
theorem longest_respelled
    (h : List.Forall₂ (fun e e' => Respelled e.1 e'.1 ∧ e.2 = e'.2) byDomain byDomain') :
    LongestUpstream byDomain' default name out ↔ LongestUpstream byDomain default name out := by
  have hsame : byDomain'.map (fun e => (normal e.1, e.2)) = byDomain.map fun e => (normal e.1, e.2) := by
    induction h with
    | nil => rfl
    | cons he _ ih => rw [List.map_cons, List.map_cons, ih, normal_respelled he.1, he.2]
  have hread : ∀ l : List (String × String), LongestUpstream l default name out ↔
      (∃ p ∈ l.map (fun e => (normal e.1, e.2)), Under p.1 name ∧
        (∀ p' ∈ l.map (fun e => (normal e.1, e.2)), Under p'.1 name → byteLen p'.1 ≤ byteLen p.1) ∧
          out = withPort p.2) ∨
      (∀ p ∈ l.map (fun e => (normal e.1, e.2)), ¬ Under p.1 name) ∧ out = defaultUpstream default := by
    intro l
    unfold LongestUpstream
    simp only [List.mem_map, exists_exists_and_eq_and, forall_exists_index, and_imp, forall_apply_eq_imp_iff₂]
  rw [hread, hread, hsame]

/-- **Longest-suffix resolution.** When no two domains are the same to `SetRoutes` there is one upstream: that
    of the longest domain that the name is under, in whichever orders the maps are ranged over and however the
    domains and the name are spelled. A name is under a domain label by label. -/
theorem pick_longest (hdistinct : (byDomain.map fun e => normal e.1).Nodup) (default qname : String) :
    ∃ out, LongestUpstream byDomain default (normal qname) out ∧
      (∀ byDomain' qname', List.Forall₂ (fun e e' => Respelled e.1 e'.1 ∧ e.2 = e'.2) byDomain byDomain' →
        Respelled qname qname' → ∀ out', Resolves byDomain' default qname' out' ↔ out' = out) ∧
      ∀ domain, Under domain (normal qname) ↔
        domain.toList.splitOn '.' <:+ (normal qname).toList.splitOn '.' := by
  obtain ⟨out, hout⟩ : ∃ out, Resolves byDomain default qname out :=
    ⟨_, byDomain, _, List.Perm.refl _, List.Perm.refl _, rfl⟩
  have hlong := longest_of_resolves hout
  refine ⟨out, hlong, fun byDomain' qname' hrespelled hname out' => ?_, fun domain => captures_iff_labels⟩
  rw [resolves_iff, ← normal_respelled hname]
  have hsame : LongestUpstream byDomain' default (normal qname) out' ↔
      LongestUpstream byDomain default (normal qname) out' := longest_respelled hrespelled
  rw [hsame]
  exact ⟨fun h => h.unique hdistinct hlong, fun h => h ▸ hlong⟩

/-- Two domains of different length, one of them spelled otherwise. -/
def gripeRoutes (domain : String) : List (String × String) := [("mmop.gripe", "10.0.0.2"), (domain, "10.0.0.3")]

/-- The longer of two zones decides, whatever the case and the final dot. -/
theorem pick_more_specific : Resolves (gripeRoutes "a.MMOP.gripe.") "1.1.1.1" "X.a.mmop.gripe." "10.0.0.3:53" ∧
    ¬ Resolves (gripeRoutes "a.MMOP.gripe.") "1.1.1.1" "X.a.mmop.gripe." "10.0.0.2:53" := by
  obtain ⟨picked, -, hpicked, -⟩ :=
    @pick_longest (gripeRoutes "a.mmop.gripe") (by decide +kernel) "1.1.1.1" "x.a.mmop.gripe."
  have hrespelled : List.Forall₂ (fun e e' => Respelled e.1 e'.1 ∧ e.2 = e'.2) (gripeRoutes "a.mmop.gripe")
      (gripeRoutes "a.MMOP.gripe.") :=
    .cons ⟨by decide +kernel, rfl⟩ (.cons ⟨by decide +kernel, rfl⟩ .nil)
  have hresolves := hpicked _ "X.a.mmop.gripe." hrespelled (by decide +kernel)
  have hout : Resolves (gripeRoutes "a.MMOP.gripe.") "1.1.1.1" "X.a.mmop.gripe." "10.0.0.3:53" :=
    ⟨_, _, List.Perm.refl _, List.Perm.refl _, by decide +kernel⟩
  refine ⟨hout, fun hother => ?_⟩
  exact absurd (((hresolves _).mp hother).trans ((hresolves _).mp hout).symm) (by decide)

end Resolver
end BeautyAwg
