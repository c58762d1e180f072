import BeautyAwg.Release.Checker

/-!
# `Release.Correctness.Cache`: how often GitHub is asked, and what is offered

Every node polls every few seconds, and each poll may refresh the cache. Over any run of polls the requests to GitHub
stay more than the time to live apart (`fetches_rate`), and an offer is a file of the release that the last request
returned, at most that long ago (`offers_last_release`).

## Contents
- **Runs.** `Poll`, `afterPolls`, `fetches`.
- **The cache.** `Holds`: it is what the last request made of it.
- **Spacing.** `length_of_spaced`: a window holds few times that are apart.
- **Results.** `fetches_rate`, `offers_last_release`.
-/

namespace BeautyAwg
namespace Release

open Checker

/-! ## Runs -/

/-- A poll: its time, the node's version and architecture, and what a request would come back with. -/
structure Poll where
  now : Int
  resp : Response
  curVersion : String
  arch : String

/-- A poll: what it leaves in the cache, and what it is offered. -/
def Poll.run (q : Poll) (c : Checker) : Checker × Offer := c.update q.now q.resp q.curVersion q.arch

/-- The cache after polls one after another. -/
def afterPolls (c : Checker) (qs : List Poll) : Checker := qs.foldl (fun c q => (q.run c).1) c

/-- The poll makes a request. -/
def Poll.Asks (q : Poll) (c : Checker) : Prop :=
  ¬ (q.curVersion = "" ∨ q.curVersion = "dev" ∨ q.arch = "") ∧ c.ttl < q.now - c.fetched

instance (q : Poll) (c : Checker) : Decidable (q.Asks c) := inferInstanceAs (Decidable (_ ∧ _))

/-- The polls that make a request. -/
def fetches : Checker → List Poll → List Poll
  | _, [] => []
  | c, q :: qs => (if q.Asks c then [q] else []) ++ fetches (q.run c).1 qs

theorem afterPolls_append (c : Checker) (qs qs' : List Poll) :
    afterPolls c (qs ++ qs') = afterPolls (afterPolls c qs) qs' := List.foldl_append

/-- A fetch is one of the polls. -/
theorem mem_of_mem_fetches {c : Checker} {qs : List Poll} {q : Poll} (h : q ∈ fetches c qs) : q ∈ qs := by
  induction qs generalizing c with
  | nil => exact absurd h List.not_mem_nil
  | cons p qs ih =>
    rw [fetches] at h
    rcases List.mem_append.mp h with h | h
    · split at h
      · rw [List.mem_singleton.mp h]
        exact List.mem_cons_self
      · exact absurd h List.not_mem_nil
    · exact List.mem_cons_of_mem _ (ih h)

/-- What a poll does to the cache. -/
theorem run_cache (q : Poll) (c : Checker) :
    (q.run c).1 = if q.Asks c then c.refreshLocked q.now q.resp else c := by
  by_cases hasks : q.Asks c
  · have hcache : c.current q.now q.resp = c.refreshLocked q.now q.resp := if_pos hasks.2
    unfold Poll.run update
    rw [if_pos hasks, if_neg hasks.1]
    simp only [hcache]
    split
    · rfl
    · split <;> rfl
  · rw [if_neg hasks]
    unfold Poll.run update
    split
    · rfl
    · rename_i hknown
      have hcache : c.current q.now q.resp = c := if_neg fun h => hasks ⟨hknown, h⟩
      simp only [hcache]
      split
      · rfl
      · split <;> rfl

theorem refresh_ttl (c : Checker) (now : Int) (resp : Response) : (c.refreshLocked now resp).ttl = c.ttl := by
  unfold refreshLocked
  split
  · rfl
  · split
    · rfl
    · split <;> rfl

theorem refresh_fetched (c : Checker) (now : Int) (resp : Response) : (c.refreshLocked now resp).fetched = now := by
  unfold refreshLocked
  split
  · rfl
  · split
    · rfl
    · split <;> rfl

/-- A poll never changes how long a cached answer lasts. -/
theorem run_ttl (q : Poll) (c : Checker) : (q.run c).1.ttl = c.ttl := by
  rw [run_cache]
  split
  · exact refresh_ttl c q.now q.resp
  · rfl

/-- The cache remembers the time of the last request. -/
theorem run_fetched (q : Poll) (c : Checker) : (q.run c).1.fetched = if q.Asks c then q.now else c.fetched := by
  rw [run_cache]
  split
  · exact refresh_fetched c q.now q.resp
  · rfl

/-- A run of polls does not change it either. -/
theorem afterPolls_ttl (c : Checker) (qs : List Poll) : (afterPolls c qs).ttl = c.ttl := by
  induction qs generalizing c with
  | nil => rfl
  | cons q qs ih => exact (ih _).trans (run_ttl q c)

/-! ## The cache -/

/-- The release that a response brings. -/
def Response.release : Response → Option (String × List String)
  | .answered 200 _ (.ok release) => some release
  | _ => none

/-- A cache without an error, that is not new, holds the release of its last request. -/
def Holds (asked : List Poll) (c : Checker) : Prop :=
  match asked.getLast? with
  | none => c.tag = ""
  | some q => c.fetched = q.now ∧ (c.err = none → q.resp.release = some (c.tag, c.assets))

/-- A refresh that goes well stores the answered release. -/
theorem refresh_release (c : Checker) (now : Int) (resp : Response) (h : (c.refreshLocked now resp).err = none) :
    resp.release = some ((c.refreshLocked now resp).tag, (c.refreshLocked now resp).assets) := by
  unfold refreshLocked at h ⊢
  split at h
  · cases h
  · split at h
    · cases h
    · rename_i hcode
      obtain rfl := not_not.mp hcode
      split at h
      · cases h
      · rfl

/-- After a poll the cache holds what the last fetch brought. -/
theorem holds_append {asked : List Poll} {c : Checker} (q : Poll) (h : Holds asked c) :
    Holds (asked ++ if q.Asks c then [q] else []) (q.run c).1 := by
  rw [run_cache]
  split
  · unfold Holds
    rw [List.getLast?_concat]
    exact ⟨refresh_fetched c q.now q.resp, refresh_release c q.now q.resp⟩
  · rw [List.append_nil]
    exact h

/-- The run lemma. -/
theorem holds_afterPolls (qs : List Poll) : ∀ {asked : List Poll} {c : Checker}, Holds asked c →
    Holds (asked ++ fetches c qs) (afterPolls c qs) := by
  induction qs with
  | nil =>
    intro asked c h
    rw [fetches, List.append_nil]
    exact h
  | cons q qs ih =>
    intro asked c h
    have hmore := ih (holds_append q h)
    rw [List.append_assoc] at hmore
    exact hmore

/-! ## Spacing -/

/-- Times that are each more than `d` after the one before fill a window slowly. -/
theorem length_of_spaced {d hi : Int} {ts : List Int} {lo : Int}
    (hspaced : (lo :: ts).Pairwise fun a b => a + d < b) (hhi : ∀ t ∈ lo :: ts, t ≤ hi) : ts.length * d ≤ hi - lo := by
  induction ts generalizing lo with
  | nil =>
    have hlo := hhi lo List.mem_cons_self
    simpa using hlo
  | cons t ts ih =>
    obtain ⟨hfirst, hrest⟩ := List.pairwise_cons.mp hspaced
    have hgap := hfirst t List.mem_cons_self
    have htail := ih hrest fun x hx => hhi x (List.mem_cons_of_mem _ hx)
    have hmul : ((t :: ts).length : Int) * d = ts.length * d + d := by
      rw [List.length_cons, Int.natCast_add, Int.add_mul]
      simp
    omega

/-! ## Results -/

/-- Fetches lie more than the cache's life apart. -/
theorem fetches_after {c : Checker} {qs : List Poll} (hlater : ∀ q ∈ qs, c.fetched ≤ q.now)
    (htimes : qs.Pairwise fun a b => a.now ≤ b.now) :
    (∀ q ∈ fetches c qs, c.fetched + c.ttl < q.now) ∧ (fetches c qs).Pairwise fun a b => a.now + c.ttl < b.now := by
  induction qs generalizing c with
  | nil => exact ⟨fun _ h => absurd h List.not_mem_nil, .nil⟩
  | cons q qs ih =>
    obtain ⟨hfirst, hrest⟩ := List.pairwise_cons.mp htimes
    have hstep : ∀ x ∈ qs, (q.run c).1.fetched ≤ x.now := by
      intro x hx
      rw [run_fetched]
      split
      · exact hfirst x hx
      · exact hlater x (List.mem_cons_of_mem _ hx)
    -- the cache after this poll is the one the others start with
    obtain ⟨hafter, hpair⟩ := ih hstep hrest
    rw [run_ttl] at hafter hpair
    rw [run_fetched] at hafter
    rw [fetches]
    by_cases hasks : q.Asks c
    · rw [if_pos hasks] at hafter ⊢
      have hnow : c.fetched + c.ttl < q.now := by
        have hlt := hasks.2
        omega
      refine ⟨fun x hx => ?_, List.pairwise_cons.mpr ⟨hafter, hpair⟩⟩
      rcases List.mem_cons.mp hx with rfl | hx
      · exact hnow
      · have hx := hafter x hx
        have hq := hlater q List.mem_cons_self
        omega
    · rw [if_neg hasks] at hafter ⊢
      exact ⟨hafter, hpair⟩

/-- **How often GitHub is asked.** Over any run of polls the requests are more than half an hour apart, however many
    nodes poll, and whatever comes back: `n` of them fall into a time of at least `n - 1` half hours. -/
theorem fetches_rate {qs : List Poll} (hstart : ∀ q ∈ qs, newChecker.fetched ≤ q.now)
    (htimes : qs.Pairwise fun a b => a.now ≤ b.now) :
    (fetches newChecker qs).Pairwise (fun a b => a.now + 1800000000000 < b.now) ∧
    ∀ lo hi : Int, lo ≤ hi →
      ((fetches newChecker qs).filter fun q => lo ≤ q.now ∧ q.now ≤ hi).length * 1800000000000 ≤
        hi - lo + 1800000000000 := by
  have hspaced := (fetches_after hstart htimes).2
  refine ⟨hspaced, fun lo hi hle => ?_⟩
  have hwindow := hspaced.sublist (List.filter_sublist (p := fun q => lo ≤ q.now ∧ q.now ≤ hi))
  have hin : ∀ q ∈ (fetches newChecker qs).filter fun q => lo ≤ q.now ∧ q.now ≤ hi, lo ≤ q.now ∧ q.now ≤ hi :=
    fun q hq => of_decide_eq_true (List.mem_filter.mp hq).2
  cases hlist : (fetches newChecker qs).filter fun q => lo ≤ q.now ∧ q.now ≤ hi with
  | nil =>
    rw [List.length_nil]
    omega
  | cons q rest =>
    rw [hlist] at hwindow hin
    have htimes : ((q :: rest).map Poll.now).Pairwise fun a b => a + 1800000000000 < b :=
      List.pairwise_map.mpr hwindow
    rw [List.map_cons] at htimes
    have hbound := length_of_spaced htimes
      (List.forall_mem_map (f := Poll.now) (l := q :: rest) |>.mpr fun x hx => (hin x hx).2)
    have hlo := (hin q List.mem_cons_self).1
    rw [List.length_map] at hbound
    rw [List.length_cons]
    omega

/-- What an offer says of the cache. -/
theorem offer_of_available {q : Poll} {c : Checker} (h : (q.run c).2.available = true) :
    (q.run c).1.err = none ∧ (q.run c).1.tag ≠ "" ∧ (q.run c).1.tag ≠ q.curVersion ∧
      assetName (q.run c).1.tag q.arch ∈ (q.run c).1.assets ∧
      (q.run c).2 = ⟨(q.run c).1.tag, downloadURL (q.run c).1.tag (assetName (q.run c).1.tag q.arch), true⟩ ∧
      q.now - (q.run c).1.fetched ≤ max 0 c.ttl := by
  -- either this poll fetched, or what was cached is still fresh
  have hage : q.now - (q.run c).1.fetched ≤ max 0 c.ttl ∨
      (q.curVersion = "" ∨ q.curVersion = "dev" ∨ q.arch = "") := by
    by_cases hknown : q.curVersion = "" ∨ q.curVersion = "dev" ∨ q.arch = ""
    · exact .inr hknown
    · rw [run_fetched]
      split
      · left
        omega
      · rename_i hasks
        have hlt : ¬ c.ttl < q.now - c.fetched := fun hlt => hasks ⟨hknown, hlt⟩
        left
        omega
  revert h
  unfold Poll.run update at *
  split
  · intro h
    cases h
  · rename_i hknown
    rw [if_neg hknown] at hage
    dsimp only at hage ⊢
    split
    · intro h
      cases h
    · rename_i hcache
      rw [if_neg hcache] at hage
      split
      · intro h
        cases h
      · rename_i hasset
        rw [if_neg hasset] at hage
        rw [not_or, not_or, not_not] at hcache
        exact fun _ => ⟨hcache.1, hcache.2.1, hcache.2.2, not_not.mp hasset, rfl, hage.resolve_right hknown⟩

/-- **What is offered.** After any run of polls, an update that is offered is a file for the node's architecture of the
    very release that the last request to GitHub returned, at most half an hour ago; a request that failed since is
    never papered over with an earlier release. -/
theorem offers_last_release (qs : List Poll) (q : Poll)
    (havail : (q.run (afterPolls newChecker qs)).2.available = true) :
    ∃ last tag assets, (fetches newChecker (qs ++ [q])).getLast? = some last ∧
      last.resp.release = some (tag, assets) ∧ q.now - last.now ≤ 1800000000000 ∧
      assetName tag q.arch ∈ assets ∧ tag ≠ q.curVersion ∧
      (q.run (afterPolls newChecker qs)).2 = ⟨tag, downloadURL tag (assetName tag q.arch), true⟩ := by
  obtain ⟨herr, htag, hdiff, hasset, hoffer, hage⟩ := offer_of_available havail
  have hempty : Holds [] newChecker := rfl
  have hholds := holds_afterPolls (qs ++ [q]) hempty
  have hafter : afterPolls newChecker (qs ++ [q]) = (q.run (afterPolls newChecker qs)).1 := afterPolls_append _ _ _
  rw [List.nil_append, hafter] at hholds
  unfold Holds at hholds
  have httl : (afterPolls newChecker qs).ttl = 1800000000000 := afterPolls_ttl newChecker qs
  cases hlast : (fetches newChecker (qs ++ [q])).getLast? with
  | none =>
    rw [hlast] at hholds
    exact absurd hholds htag
  | some last =>
    rw [hlast] at hholds
    obtain ⟨hfetched, hrelease⟩ := hholds
    rw [httl] at hage
    exact ⟨last, _, _, rfl, hrelease herr, by omega, hasset, hdiff, hoffer⟩

/-- An answer with one release and one file. -/
def demoRelease : Response := .answered 200 "200 OK" (.ok ("v1.1.0", [assetName "v1.1.0" "amd64"]))

/-- Two nodes poll, one of them again after half an hour. -/
def demoPolls : List Poll :=
  [⟨0, demoRelease, "v1.0.0", "amd64"⟩, ⟨5, .failed "timeout", "v1.0.0", "arm64"⟩,
    ⟨1800000000001, demoRelease, "v1.0.0", "amd64"⟩]

/-- Of these polls two make a request, more than half an hour apart. -/
theorem fetches_rate_demo : (fetches newChecker demoPolls).length = 2 ∧
    (fetches newChecker demoPolls).Pairwise fun a b => a.now + 1800000000000 < b.now :=
  ⟨by decide, (fetches_rate (by decide) (by decide)).1⟩

/-- The last request has failed, and the one before it has found a release. -/
theorem offers_last_release_demo : ∃ last,
    (fetches newChecker (demoPolls ++ [⟨1800000000009, .failed "timeout", "v1.0.0", "amd64"⟩])).getLast? = some last ∧
      last.resp.release = some ("v1.1.0", [assetName "v1.1.0" "amd64"]) := by
  obtain ⟨last, tag, assets, hlast, hrelease, -, -, -, hoffer⟩ :=
    offers_last_release demoPolls ⟨1800000000009, .failed "timeout", "v1.0.0", "amd64"⟩ (by decide)
  have hmem := mem_of_mem_fetches (List.mem_of_mem_getLast? hlast)
  refine ⟨last, hlast, ?_⟩
  simp only [demoPolls, List.cons_append, List.nil_append, List.mem_cons, List.not_mem_nil, or_false] at hmem
  rcases hmem with rfl | rfl | rfl | rfl
  · rfl
  · cases hrelease
  · rfl
  · cases hrelease

end Release
end BeautyAwg
