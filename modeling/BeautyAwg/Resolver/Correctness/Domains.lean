import BeautyAwg.Resolver.Correctness.Pick
import BeautyAwg.Store.EditCalls
import BeautyAwg.Awg.Model

/-!
# `Resolver.Correctness.Domains`: a domain entered for a node

An entry is trimmed by the store, of a final dot first and of blanks after it, and of a final dot once more by the
resolver. However a zone is entered, what is stored is the zone in lower case, perhaps with a final dot
(`normalDomain_entered`), and to the resolver both are the zone; so queries under it go to the node
(`entered_domain_resolves`).

## Contents
- **Characters.** What lower case leaves alone.
- **Entries.** `IsName`, `EnteredAs`, `trimSpace_decorated`, `normalDomain_entered`.
- **Resolution.** `upstream_of_claim`, `under_zone`, `entered_domain_resolves`.
-/

namespace BeautyAwg
namespace Resolver

open Store LongestKey

/-! ## Characters -/

/-- The code points of blanks. -/
def blanks : List Nat :=
  [9, 10, 11, 12, 13, 32, 0x85, 0xa0, 0x1680, 0x2028, 0x2029, 0x202f, 0x205f, 0x3000] ++
    (List.range 11).map (0x2000 + ·)

theorem isSpace_iff (c : Char) : isSpace c = true ↔ c.toNat ∈ blanks := by
  have hrange : (0x2000 ≤ c.toNat ∧ c.toNat ≤ 0x200a) ↔ c.toNat ∈ (List.range 11).map (0x2000 + ·) := by
    rw [List.mem_map]
    constructor
    · rintro ⟨hlow, hhigh⟩
      exact ⟨c.toNat - 0x2000, List.mem_range.mpr (by omega), by omega⟩
    · rintro ⟨i, hi, hc⟩
      have hlt := List.mem_range.mp hi
      omega
  unfold isSpace blanks
  rw [Bool.decide_or, Bool.or_eq_true, decide_eq_true_eq, decide_eq_true_eq, hrange, List.mem_append]

/-- Blanks and the characters with a meaning in an entry have no case. -/
theorem marks_avoided : ∀ n ∈ blanks ++ ['*'.toNat, '.'.toNat], ∀ r ∈ Unicode.caseRanges, r.Avoids n := by
  decide +kernel

theorem toLower_eq_dot (c : Char) : Unicode.toLower c = '.' ↔ c = '.' := by
  rw [← Char.toNat_inj, ← Char.toNat_inj]
  exact Unicode.toLower_eq_iff (marks_avoided _ (by simp)) c

theorem toLower_eq_star (c : Char) : Unicode.toLower c = '*' ↔ c = '*' := by
  rw [← Char.toNat_inj, ← Char.toNat_inj]
  exact Unicode.toLower_eq_iff (marks_avoided _ (by simp)) c

theorem isSpace_toLower (c : Char) : isSpace (Unicode.toLower c) = isSpace c := by
  rw [Bool.eq_iff_iff, isSpace_iff, isSpace_iff]
  constructor
  · intro h
    rw [← (Unicode.toLower_eq_iff (marks_avoided _ (List.mem_append_left _ h)) c).mp rfl] at h
    exact h
  · intro h
    rw [(Unicode.toLower_eq_iff (marks_avoided _ (List.mem_append_left _ h)) c).mpr rfl]
    exact h

/-! ## Entries -/

/-- One or more labels that are not empty, without blanks or stars. -/
structure IsName (z : String) : Prop where
  labels : ∀ l ∈ z.toList.splitOn '.', l ≠ []
  chars : ∀ c ∈ z.toList, isSpace c = false ∧ c ≠ '*'

/-- The ways to enter a zone: in any case, after `*.` or not, with a final dot or without, between blanks. -/
def EnteredAs (z e : String) : Prop :=
  ∃ pre star core dot post : List Char, e.toList = pre ++ (star ++ core ++ dot) ++ post ∧
    (∀ c ∈ pre ++ post, isSpace c = true) ∧ (star = [] ∨ star = "*.".toList) ∧ (dot = [] ∨ dot = ['.']) ∧
      core.map Unicode.toLower = z.toList.map Unicode.toLower

theorem dropWhile_blanks {pre cs : List Char} (hpre : ∀ c ∈ pre, isSpace c = true) (hcs : cs ≠ [])
    (hhead : ∀ c ∈ cs.head?, isSpace c = false) : (pre ++ cs).dropWhile isSpace = cs := by
  rw [List.dropWhile_append_of_pos hpre]
  cases cs with
  | nil => exact absurd rfl hcs
  | cons c cs => exact List.dropWhile_cons_of_neg (by simp [hhead c rfl])

/-- Trimming takes the blanks at both ends. -/
theorem trimSpace_decorated {pre body post : List Char} (hblank : ∀ c ∈ pre ++ post, isSpace c = true)
    (hne : body ≠ []) (hbody : ∀ c ∈ body, isSpace c = false) : trimSpace (pre ++ body ++ post) = body := by
  have hpre : ∀ c ∈ pre, isSpace c = true := fun c hc => hblank c (List.mem_append_left _ hc)
  have hpost : ∀ c ∈ post.reverse, isSpace c = true := fun c hc =>
    hblank c (List.mem_append_right _ (List.mem_reverse.mp hc))
  unfold trimSpace
  rw [List.append_assoc, dropWhile_blanks hpre (by simp [hne]) fun c hc => ?_, List.reverse_append,
    dropWhile_blanks hpost (by simpa using hne) fun c hc => ?_, List.reverse_reverse]
  · exact hbody c (List.mem_reverse.mp (List.mem_of_mem_head? hc))
  · rw [List.head?_append_of_ne_nil _ hne] at hc
    exact hbody c (List.mem_of_mem_head? hc)

section Entry

variable {z e : String}

theorem IsName.ne_nil (h : IsName z) : z.toList ≠ [] := by
  intro hnil
  exact h.labels [] (by simp [hnil, List.splitOn_nil]) rfl

theorem IsName.last (h : IsName z) : z.toList.getLast? ≠ some '.' := by
  intro hlast
  obtain ⟨host, hz⟩ := List.getLast?_eq_some_iff.mp hlast
  refine h.labels [] ?_ rfl
  rw [hz, List.splitOn_append_cons_self, List.splitOn_nil]
  simp

/-- What a zone in any case has in common with the zone. -/
theorem IsName.core (h : IsName z) {core : List Char}
    (hcore : core.map Unicode.toLower = z.toList.map Unicode.toLower) :
    core ≠ [] ∧ core.getLast? ≠ some '.' ∧ ∀ c ∈ core, isSpace c = false ∧ c ≠ '*' := by
  refine ⟨?_, ?_, fun c hc => ?_⟩
  · rintro rfl
    exact h.ne_nil (List.map_eq_nil_iff.mp hcore.symm)
  · intro hlast
    have hlast' := congrArg List.getLast? hcore
    rw [List.getLast?_map, List.getLast?_map, hlast] at hlast'
    obtain ⟨d, hd, hdot⟩ := Option.map_eq_some_iff.mp hlast'.symm
    rw [(toLower_eq_dot '.').mpr rfl, toLower_eq_dot] at hdot
    exact h.last (hdot ▸ hd)
  · have hmem : Unicode.toLower c ∈ z.toList.map Unicode.toLower := hcore ▸ List.mem_map_of_mem hc
    obtain ⟨d, hd, hlower⟩ := List.mem_map.mp hmem
    obtain ⟨hblank, hstar⟩ := h.chars d hd
    rw [← isSpace_toLower, ← hlower, isSpace_toLower]
    refine ⟨hblank, fun hc => hstar ?_⟩
    rw [hc, (toLower_eq_star '*').mpr rfl, toLower_eq_star] at hlower
    exact hlower

/-- Of a final dot and the blanks after it the store takes the dot only when no blank hides it. -/
theorem trimDot_decorated {pre body dot post : List Char} (hblank : ∀ c ∈ post, isSpace c = true)
    (hdot : dot = [] ∨ dot = ['.']) (hne : body ≠ []) (hlast : body.getLast? ≠ some '.') :
    ∃ dot', (dot' = [] ∨ dot' = ['.']) ∧
      (trimDot (String.ofList (pre ++ (body ++ dot) ++ post))).toList = pre ++ (body ++ dot') ++ post := by
  unfold trimDot
  rw [String.toList_ofList]
  by_cases hpost : post = []
  · subst hpost
    refine ⟨[], .inl rfl, ?_⟩
    rcases hdot with rfl | rfl
    · rw [if_neg, String.toList_ofList]
      rwa [List.append_nil, List.append_nil, List.getLast?_append_of_ne_nil _ hne]
    · rw [if_pos (by simp), String.toList_ofList, List.append_nil, List.append_nil, List.append_nil,
        ← List.append_assoc, List.dropLast_concat]
  · refine ⟨dot, hdot, ?_⟩
    rw [if_neg, String.toList_ofList]
    rw [List.getLast?_append_of_ne_nil _ hpost]
    intro hend
    have hspace := hblank '.' (List.mem_of_getLast? hend)
    exact absurd hspace (by decide)

/-- A wildcard is cut off, and a name is no wildcard. -/
theorem drop_wildcard {star body : List Char} (hstar : star = [] ∨ star = "*.".toList)
    (hbody : ∀ c ∈ body, c ≠ '*') :
    (if "*.".toList.isPrefixOf (star ++ body) then (star ++ body).drop 2 else star ++ body) = body := by
  rcases hstar with rfl | rfl
  · rw [if_neg]
    · rfl
    · cases body with
      | nil => decide
      | cons c body =>
        intro hwild
        have hhead : "*.".toList <+: c :: body := List.isPrefixOf_iff_prefix.mp hwild
        exact hbody c (by simp) (List.cons_prefix_cons.mp hhead).1.symm
  · rw [if_pos (List.isPrefixOf_iff_prefix.mpr (List.prefix_append _ _))]
    rfl

/-- **What the store makes of an entry.** The zone in lower case, perhaps with a final dot. -/
theorem normalDomain_entered (hz : IsName z) (he : EnteredAs z e) :
    ∃ dot, (dot = [] ∨ dot = ['.']) ∧ (normalDomain e).toList = z.toList.map Unicode.toLower ++ dot := by
  obtain ⟨pre, star, core, dot, post, hentry, hblank, hstar, hdot, hcore⟩ := he
  obtain ⟨hne, hlast, hchars⟩ := hz.core hcore
  have hbody : star ++ core ≠ [] := by simp [hne]
  have hend : (star ++ core).getLast? ≠ some '.' := by rwa [List.getLast?_append_of_ne_nil _ hne]
  obtain ⟨dot', hdot', htrim⟩ := @trimDot_decorated pre (star ++ core) dot post
    (fun c hc => hblank c (List.mem_append_right _ hc)) hdot hbody hend
  -- the blanks around go, since neither the wildcard, the name nor the dot has any
  have hspace : trimSpace (pre ++ (star ++ core ++ dot') ++ post) = star ++ core ++ dot' := by
    refine trimSpace_decorated hblank (by simp [hne]) fun c hc => ?_
    rcases List.mem_append.mp hc with hc | hc
    · rcases List.mem_append.mp hc with hc | hc
      · rcases hstar with rfl | rfl
        · exact absurd hc List.not_mem_nil
        · have hwild : ("*.".toList.all fun c => isSpace c = false) = true := by decide
          exact of_decide_eq_true (List.all_eq_true.mp hwild c hc)
      · exact (hchars c hc).1
    · rcases hdot' with rfl | rfl
      · exact absurd hc List.not_mem_nil
      · rw [List.mem_singleton.mp hc]
        decide
  -- only the name has letters
  have hlower : (star ++ core ++ dot').map Unicode.toLower =
      star ++ (z.toList.map Unicode.toLower ++ dot') := by
    have hmarks : star.map Unicode.toLower = star ∧ dot'.map Unicode.toLower = dot' := by
      constructor
      · rcases hstar with rfl | rfl
        · rfl
        · decide +kernel
      · rcases hdot' with rfl | rfl
        · rfl
        · decide +kernel
    rw [List.map_append, List.map_append, hmarks.1, hmarks.2, hcore, List.append_assoc]
  refine ⟨dot', hdot', ?_⟩
  have hstored : (normalDomain e).toList =
      if "*.".toList.isPrefixOf ((trimSpace (trimDot e).toList).map Unicode.toLower) then
        ((trimSpace (trimDot e).toList).map Unicode.toLower).drop 2
      else (trimSpace (trimDot e).toList).map Unicode.toLower := by
    unfold normalDomain trimDot
    rw [String.toList_ofList]
    split <;> simp only [String.toList_ofList]
  have hsame : e = String.ofList (pre ++ (star ++ core ++ dot) ++ post) := by
    rw [← hentry, String.ofList_toList]
  rw [hstored, hsame, htrim, hspace, hlower]
  -- no star is left in the name, so a wildcard is dropped once
  refine drop_wildcard hstar fun c hc => ?_
  rcases List.mem_append.mp hc with hc | hc
  · obtain ⟨d, hd, rfl⟩ := List.mem_map.mp hc
    exact fun hc => (hz.chars d hd).2 ((toLower_eq_star d).mp hc)
  · rcases hdot' with rfl | rfl
    · exact absurd hc List.not_mem_nil
    · rw [List.mem_singleton.mp hc]
      decide

theorem normal_toList (s : String) : (normal s).toList = (trimDot s).toList.map Unicode.toLower := by
  unfold normal Unicode.lowerString
  rw [String.toList_ofList]

/-- A name loses nothing to the resolver but its case. -/
theorem IsName.normal (h : IsName z) : (normal z).toList = z.toList.map Unicode.toLower := by
  rw [normal_toList, trimDot, if_neg h.last]

/-- To the resolver the entry is the zone. -/
theorem normal_entered (hz : IsName z) (he : EnteredAs z e) : normal (normalDomain e) = normal z := by
  obtain ⟨dot, hdot, hstored⟩ := normalDomain_entered hz he
  have hlast : (z.toList.map Unicode.toLower).getLast? ≠ some '.' := by
    intro hlast
    rw [List.getLast?_map] at hlast
    obtain ⟨c, hc, hlower⟩ := Option.map_eq_some_iff.mp hlast
    exact hz.last (((toLower_eq_dot c).mp hlower) ▸ hc)
  have htrim : (trimDot (normalDomain e)).toList = z.toList.map Unicode.toLower := by
    unfold trimDot
    rw [hstored]
    rcases hdot with rfl | rfl
    · rw [List.append_nil, if_neg hlast, hstored, List.append_nil]
    · rw [if_pos (by simp), List.dropLast_concat, String.toList_ofList]
  apply String.toList_injective
  rw [normal_toList, htrim, hz.normal, List.map_map]
  exact List.map_congr_left fun c _ => Unicode.toLower_toLower c

/-- The entry is stored. -/
theorem mem_normalDomains {domains : List String} (hz : IsName z) (he : EnteredAs z e) (hmem : e ∈ domains) :
    normalDomain e ∈ normalDomains domains := by
  obtain ⟨dot, hdot, hstored⟩ := normalDomain_entered hz he
  obtain ⟨c, cs, hcs⟩ := List.exists_cons_of_ne_nil hz.ne_nil
  -- its first letter is the name's, so it is neither nothing nor a star alone
  have hhead : (normalDomain e).toList.head? = some (Unicode.toLower c) := by rw [hstored, hcs]; rfl
  have hne : normalDomain e ≠ "" := by
    intro hnil
    rw [hnil] at hhead
    exact absurd hhead (by simp)
  have hstar : normalDomain e ≠ "*" := by
    intro hstar
    rw [hstar] at hhead
    have hc : Unicode.toLower c = '*' := (Option.some.inj hhead).symm
    exact (hz.chars c (by simp [hcs])).2 ((toLower_eq_star c).mp hc)
  exact List.mem_filter.mpr ⟨List.mem_map_of_mem hmem, decide_eq_true ⟨hne, hstar⟩⟩

end Entry

/-! ## Resolution -/

section Resolution

variable {t : Tables} {n : NodeRow} {z e : String}

/-- Queries that one node's domain captures, and no other node's further down, go to the node. -/
theorem upstream_of_claim (wf : t.Constraints) {domain : String} (h : Claims t n domain) {default q out : String}
    (hunder : Under (normal domain) (normal q))
    (hothers : ∀ m d, Claims t m d → m.id ≠ n.id → Under (normal d) (normal q) →
      ¬ Under (normal domain) (normal d)) : Upstream t default q out ↔ out = withPort n.dns := by
  have hrow : (domain, n.dns) ∈ domainRows t := (mem_domainRows wf).mpr ⟨n, h, rfl⟩
  have honly : ∀ out, Upstream t default q out → out = withPort n.dns := by
    intro out hout
    rcases upstream_iff.mp hout with ⟨r, hr, hr_under, hmax, rfl⟩ | ⟨hnone, -⟩
    · obtain ⟨m, hm, hdns⟩ := (mem_domainRows wf).mp hr
      have hbelow : Under (normal domain) (normal r.1) :=
        under_of_longer hunder hr_under (hmax (domain, n.dns) hrow hunder)
      by_cases hid : m.id = n.id
      · rw [hdns, node_eq_of_id wf hm.mem h.mem hid]
      · exact absurd hbelow (hothers m r.1 hm hid hr_under)
    · exact absurd hunder (hnone (domain, n.dns) hrow)
  constructor
  · exact honly out
  · rintro rfl
    obtain ⟨out, hout⟩ := upstream_exists t default q
    rw [← honly out hout]
    exact hout

/-- A name is under itself and under what stands behind a dot in it. -/
theorem under_zone (hz : IsName z) (host : String) :
    Under (normal z) (normal z) ∧ Under (normal z) (normal (host ++ "." ++ z)) := by
  refine ⟨captures_self '.' (normal z).toList, ?_⟩
  obtain ⟨c, cs, hcs⟩ := List.exists_cons_of_ne_nil hz.ne_nil
  have hlast : (host ++ "." ++ z).toList.getLast? ≠ some '.' := by
    rw [String.toList_append, List.getLast?_append_of_ne_nil _ hz.ne_nil]
    exact hz.last
  have hname : (normal (host ++ "." ++ z)).toList = host.toList.map Unicode.toLower ++ '.' :: (normal z).toList := by
    rw [normal_toList, trimDot, if_neg hlast, hz.normal, String.toList_append, String.toList_append,
      List.map_append, List.map_append, List.append_assoc]
    rw [show ".".toList.map Unicode.toLower = ['.'] by decide +kernel, List.singleton_append]
  show Captures '.' (normal z).toList (normal (host ++ "." ++ z)).toList
  rw [hname]
  exact captures_append '.' (host.toList.map Unicode.toLower) (normal z).toList

/-- **A domain entered for a node resolves through that node.** The domains are stored unless one has a NUL
    character. However the zone was entered, the zone and every name that ends in it after a dot then go to the
    node's server, unless another node claims the zone or more of the name. -/
theorem entered_domain_resolves {db : Db} (hn : n ∈ db.nodes) (hactive : n.status = .active) (hdns : n.dns ≠ "")
    {domains : List String} (hmem : e ∈ domains) (hz : IsName z) (he : EnteredAs z e) :
    ((∃ db' : Db, Txn.run apply (setNodeDomains n.id domains) db = .ok ((), db')) ↔
      ∀ d ∈ normalDomains domains, isText d = true) ∧
    ∀ db' : Db, Txn.run apply (setNodeDomains n.id domains) db = .ok ((), db') → n ∈ db'.nodes ∧
      (∀ q, Under (normal z) (normal q) →
        (∀ m d, Claims db'.toTables m d → m.id ≠ n.id → Under (normal d) (normal q) →
          ¬ Under (normal z) (normal d)) →
        ∀ default out, Upstream db'.toTables default q out ↔ out = withPort n.dns) ∧
      Under (normal z) (normal z) ∧ ∀ host, Under (normal z) (normal (host ++ "." ++ z)) := by
  have hid : n.id ∈ db.nodes.map NodeRow.id := List.mem_map_of_mem hn
  refine ⟨(setNodeDomains_ok_iff hid).trans List.all_eq_true, fun db' hrun => ?_⟩
  obtain ⟨hframe, hdomains⟩ := run_setNodeDomains_ok hid hrun
  have hn' : n ∈ db'.nodes := by
    have hnodes := congrArg Tables.nodes hframe
    dsimp only at hnodes
    rw [hnodes]
    exact hn
  have hclaims : Claims db'.toTables n (normalDomain e) := by
    refine ⟨hn', hactive, hdns, (hdomains _).mpr ?_⟩
    rw [if_pos rfl]
    exact mem_normalDomains hz he hmem
  refine ⟨hn', fun q hunder hothers default out => ?_, (under_zone hz "").1,
    fun host => (under_zone hz host).2⟩
  have hzone : normal (normalDomain e) = normal z := normal_entered hz he
  refine upstream_of_claim db'.wf hclaims ?_ fun m d hm hne hunder' => ?_
  · rw [hzone]
    exact hunder
  · rw [hzone]
    exact hothers m d hm hne hunder'

/-- A node with a DNS server. -/
def officeNode : NodeRow := ⟨1, "office", none, "", ⟨"", ""⟩, "", .active, none, "", false, "10.0.0.2", ""⟩

/-- Another one. -/
def labNode : NodeRow := ⟨2, "lab", none, "", ⟨"", ""⟩, "", .active, none, "", false, "10.0.0.3", ""⟩

/-- Two nodes with DNS servers, one of which has been entered a domain. -/
def gripeDb : Db where
  toTables :=
    { hub := Awg.demoHub
      enrollSecret := ""
      nodes := [officeNode, labNode]
      subnets := []
      domains := [⟨2, "gripe"⟩]
      clients := []
      grants := []
      grantRules := []
      links := [] }
  wf := by decide

/-- A wildcard between blanks, below a domain of the other node. -/
theorem wildcard_resolves : ∃ db' : Db,
    Txn.run apply (setNodeDomains officeNode.id ["\t*.MMOP.gripe. "]) gripeDb = .ok ((), db') ∧
      ∀ default out, Upstream db'.toTables default "X.mmop.gripe." out ↔ out = withPort officeNode.dns := by
  have hchars : ("mmop.gripe".toList.all fun c => isSpace c = false ∧ c ≠ '*') = true := by decide +kernel
  have hname : IsName "mmop.gripe" :=
    ⟨by decide +kernel, fun c hc => of_decide_eq_true (List.all_eq_true.mp hchars c hc)⟩
  have hentered : EnteredAs "mmop.gripe" "\t*.MMOP.gripe. " :=
    ⟨['\t'], "*.".toList, "MMOP.gripe".toList, ['.'], [' '], by decide +kernel,
      List.all_eq_true.mp (by decide +kernel), .inr rfl, .inr rfl, by decide +kernel⟩
  obtain ⟨hstored, hentry⟩ := @entered_domain_resolves officeNode "mmop.gripe" _ gripeDb List.mem_cons_self
    rfl (by decide) _ (List.mem_singleton_self _) hname hentered
  obtain ⟨db', hrun⟩ := hstored.mpr (List.all_eq_true.mp (by decide +kernel))
  obtain ⟨-, hresolves, -⟩ := hentry db' hrun
  refine ⟨db', hrun, hresolves _ (by decide +kernel) fun m d hm hne _ => ?_⟩
  have hdomains : (Txn.run apply (setNodeDomains officeNode.id ["\t*.MMOP.gripe. "]) gripeDb).map
      (fun r => r.2.domains) = .ok [⟨2, "gripe"⟩, ⟨1, "mmop.gripe."⟩] := by decide +kernel
  rw [hrun] at hdomains
  have hdomains' : db'.domains = [⟨2, "gripe"⟩, ⟨1, "mmop.gripe."⟩] := Except.ok.inj hdomains
  have hrow := hm.row
  rw [hdomains', List.mem_cons, List.mem_singleton] at hrow
  rcases hrow with hrow | hrow
  · obtain rfl : d = "gripe" := congrArg DomainRow.domain hrow
    decide +kernel
  · exact absurd (congrArg DomainRow.nodeId hrow) hne

end Resolution

end Resolver
end BeautyAwg
