import BeautyAwg.Lib.Publish
import BeautyAwg.Resolver.Live
import BeautyAwg.Resolver.Correctness.Pick

/-!
# `Resolver.Correctness.Live`: queries go by the database

The requests that reconcile are publishers and the queries are readers (`sim_steps`). So each query is sent where
some state of the database has it go, and not a state from before a request that had succeeded when the query came
in; only until the first reconcile after a start do queries go to the public server (`queries_fresh`).

## Contents
- **Simulation.** `Holds`, `Sim`, `sim_step`, `sim_steps`.
- **Queries.** `SentTo`, `upstream_of_sentTo`; `queries_fresh`.
-/

namespace BeautyAwg
namespace Resolver

open Store Txn LongestKey

/-- What the resolver goes by: zones with their servers. -/
abbrev ByDomain := List (String × String)

variable {upstream : String} {w w' : World} {a : Publish.World Db ByDomain} {i : Nat} {s : Stage}

/-! ## Simulation -/

/-- A reading of the routes from the database. -/
def ReadsDomains (db : Db) (byDomain : ByDomain) : Prop := DomainRoutesRead db.toTables byDomain

/-- The request that has the mutex as the publisher that has it. -/
inductive Holds (mutex : Option Nat) (requests : Nat → Option Stage) : Option (Publish.Holder ByDomain) → Prop
  | free (hmutex : mutex = none) : Holds mutex requests none
  | reading {i since : Nat} (hmutex : mutex = some i) (hi : requests i = some (.reconciling since)) :
      Holds mutex requests (some (.reading since))
  | showing {i since : Nat} (k : Nat) {byDomain : ByDomain} (hmutex : mutex = some i)
      (hi : requests i = some (.setRoutes since byDomain)) : Holds mutex requests (some (.showing since k byDomain))

/-- The routes are what was shown last, those of `New` at first. -/
def Shows (upstream : String) (cur : Routing) : Option (Nat × ByDomain) → Prop
  | none => cur = initial
  | some (_, byDomain) => ∃ es : ByDomain, es.Perm byDomain ∧ cur = setRoutes es upstream

/-- A server that the query can be sent to by these routes. -/
def Sent (upstream name up : String) : Option (Nat × ByDomain) → Prop
  | none => up = "1.1.1.1:53"
  | some (_, byDomain) => Resolves byDomain upstream name up

/-- A query's progress, and that of the reader it is. -/
structure QuerySim (upstream : String) (q : Query) (o : Option (Publish.Reader ByDomain)) : Prop where
  asked : q.progress = .asked → o = some (.asked q.before)
  sent : ∀ up, q.upstream = some up → ∃ got, o = some (.took q.before got) ∧ Sent upstream q.name up got

/-- The panel with its queries, and the publisher it is. -/
structure Sim (upstream : String) (w : World) (a : Publish.World Db ByDomain) : Prop where
  moments : a.moments = w.moments
  latest : ∃ past, w.moments = past ++ [w.sys.committed]
  owner : ∀ i s, w.requests i = some s → s.locked = true → w.mutex = some i
  holds : Holds w.mutex w.requests a.holder
  shows : Shows upstream w.cur a.shown
  answered : a.answered = w.succeeded
  queries : ∀ r q, w.queries r = some q → QuerySim upstream q (a.readers r)

theorem setStage_self {o : Option Stage} : (w.setStage i o).requests i = o := if_pos rfl

theorem setStage_other {o : Option Stage} {j : Nat} (h : j ≠ i) : (w.setStage i o).requests j = w.requests j := if_neg h

/-- Whoever has the mutex is in its reconcile. -/
theorem Sim.holder_locked (h : Sim upstream w a) (hmutex : w.mutex = some i) :
    ∃ s, w.requests i = some s ∧ s.locked = true := by
  have hholds := h.holds
  generalize a.holder = holder at hholds
  cases hholds with
  | free hnone => exact absurd (hmutex.symm.trans hnone) (by simp)
  | reading hj hi =>
    obtain rfl := Option.some.inj (hmutex.symm.trans hj)
    exact ⟨_, hi, rfl⟩
  | showing k hj hi =>
    obtain rfl := Option.some.inj (hmutex.symm.trans hj)
    exact ⟨_, hi, rfl⟩

/-- A request outside its reconcile moves on, or ends, and its server with it. -/
theorem sim_outside (h : Sim upstream w a) {o : Option Stage} (sys : Server)
    (hi : ∀ s, w.requests i = some s → s.locked = false) (ho : ∀ s, o = some s → s.locked = false)
    (hsys : sys.committed = w.sys.committed) : Sim upstream { w.setStage i o with sys := sys } a := by
  have hne : ∀ {j : Nat} {s : Stage}, w.requests j = some s → s.locked = true → j ≠ i := by
    rintro j s hj hs rfl
    rw [hi s hj] at hs
    exact absurd hs (by simp)
  obtain ⟨past, hpast⟩ := h.latest
  refine ⟨h.moments, ⟨past, by rw [hsys]; exact hpast⟩, fun j s hj hs => ?_, ?_, h.shows, h.answered, h.queries⟩
  · by_cases hji : j = i
    · subst hji
      rw [ho s (setStage_self.symm.trans hj)] at hs
      exact absurd hs (by simp)
    · exact h.owner j s ((setStage_other hji).symm.trans hj) hs
  · have hholds := h.holds
    generalize a.holder = holder at hholds ⊢
    cases hholds with
    | free hnone => exact .free hnone
    | reading hmutex hj => exact .reading hmutex ((setStage_other (hne hj rfl)).trans hj)
    | showing k hmutex hj => exact .showing k hmutex ((setStage_other (hne hj rfl)).trans hj)

/-- The request that has the mutex ends. -/
theorem unlock_owner (h : Sim upstream w a) (hi : w.requests i = some s) (hs : s.locked = true) :
    w.unlock i = none := if_pos (h.owner i s hi hs)

theorem unlock_other (h : Sim upstream w a) (hi : w.requests i = some s) (hs : s.locked = false) :
    w.unlock i = w.mutex := by
  refine if_neg fun hmutex => ?_
  obtain ⟨s', hs', hlocked⟩ := h.holder_locked hmutex
  obtain rfl := Option.some.inj (hi.symm.trans hs')
  exact absurd (hs.symm.trans hlocked) (by simp)

/-- A commit is a change of the state. -/
theorem sim_change (h : Sim upstream w a) (sys : Server) :
    Sim upstream { w with sys := sys, moments := w.moments ++ [sys.committed] }
      { a with moments := a.moments ++ [sys.committed] } :=
  ⟨by rw [h.moments], ⟨w.moments, rfl⟩, h.owner, h.holds, h.shows, h.answered, h.queries⟩

/-- The request that has the mutex moves on with the publisher. -/
theorem sim_inside (h : Sim upstream w a) {s' : Stage} {x : Publish.Holder ByDomain} (hmutex : w.mutex = some i)
    (hx : ∀ requests : Nat → Option Stage, requests i = some s' → Holds (some i) requests (some x)) :
    Sim upstream (w.setStage i (some s')) { a with holder := some x } := by
  refine ⟨h.moments, h.latest, fun j s hj hs => ?_, ?_, h.shows, h.answered, h.queries⟩
  · by_cases hji : j = i
    · exact hji ▸ hmutex
    · exact h.owner j s ((setStage_other hji).symm.trans hj) hs
  · have hself : (w.setStage i (some s')).requests i = some s' := setStage_self
    change Holds w.mutex _ _
    rw [hmutex]
    exact hx _ hself

/-- The request that has the mutex ends, with or without new routes. -/
theorem sim_unlocked (h : Sim upstream w a) (sys : Server) (hmutex : w.mutex = some i) {cur : Routing}
    {succeeded : List Nat} {shown : Option (Nat × ByDomain)} (hsys : sys.committed = w.sys.committed)
    (hshows : Shows upstream cur shown) :
    Sim upstream { w.setStage i none with sys := sys, mutex := none, cur := cur, succeeded := succeeded }
      { a with holder := none, shown := shown, answered := succeeded } := by
  obtain ⟨past, hpast⟩ := h.latest
  refine ⟨h.moments, ⟨past, by rw [hsys]; exact hpast⟩, fun j s hj hs => ?_, .free rfl, hshows, rfl, h.queries⟩
  by_cases hji : j = i
  · subst hji
    exact absurd (setStage_self.symm.trans hj) (by simp)
  · have hother := h.owner j s ((setStage_other hji).symm.trans hj) hs
    exact absurd (Option.some.inj (hother.symm.trans hmutex)) hji

/-- One query moves on with its reader. -/
theorem sim_query (h : Sim upstream w a) {r : Nat} {q : Query} {o : Option (Publish.Reader ByDomain)}
    (hq : QuerySim upstream q o) :
    Sim upstream (w.setQuery r (some q)) (a.setReader r o) := by
  refine ⟨h.moments, h.latest, h.owner, h.holds, h.shows, h.answered, fun r' q' hr' => ?_⟩
  unfold World.setQuery at hr'
  unfold Publish.World.setReader
  dsimp only at hr' ⊢
  split
  · rename_i hrr
    rw [if_pos hrr] at hr'
    rw [← Option.some.inj hr']
    exact hq
  · rename_i hrr
    rw [if_neg hrr] at hr'
    exact h.queries r' q' hr'

/-- A query that stays with the server it has, or with none. -/
theorem sim_progress (h : Sim upstream w a) {r : Nat} {q : Query} {p : Progress} (hr : w.queries r = some q)
    (hp : p ≠ .asked)
    (hup : ∀ up, ({ q with progress := p } : Query).upstream = some up → q.upstream = some up) :
    Sim upstream (w.setQuery r (some { q with progress := p })) a := by
  have hq := h.queries r q hr
  have hsim := sim_query (r := r) h (q := { q with progress := p }) (o := a.readers r)
    ⟨fun he => absurd he hp, fun up hs => hq.sent up (hup up hs)⟩
  have hsame : a.setReader r (a.readers r) = a := by
    unfold Publish.World.setReader
    congr 1
    funext r'
    split
    · rename_i hrr
      rw [hrr]
    · rfl
  rw [hsame] at hsim
  exact hsim

/-- **Step.** A step of the panel is at most one step of publishers and readers. -/
theorem sim_step (h : Sim upstream w a) (hstep : World.Step upstream w w') :
    ∃ a', Publish.Steps ReadsDomains a a' ∧ Sim upstream w' a' := by
  cases hstep with
  | @start i ops hfree =>
    refine ⟨a, .refl, sim_outside h w.sys (fun s hi => ?_) (fun s ho => ?_) rfl⟩
    · exact absurd (hfree.symm.trans hi) (by simp)
    · rw [← Option.some.inj ho]
      rfl
  | @begin i op ops sys hi hfire =>
    refine ⟨a, .refl, sim_outside h sys (fun s hs => ?_) (fun s ho => ?_) ?_⟩
    · rw [← Option.some.inj (hi.symm.trans hs)]
      rfl
    · rw [← Option.some.inj ho]
      rfl
    · rcases committed_of_fire hfire with hsame | ⟨_, _, he, -⟩
      · exact hsame
      · exact absurd he (by simp)
  | @statement i ops t sys hi ht hrest hfire =>
    refine ⟨a, .refl, h.moments, ?_, h.owner, h.holds, h.shows, h.answered, h.queries⟩
    obtain ⟨past, hpast⟩ := h.latest
    refine ⟨past, ?_⟩
    rcases committed_of_fire hfire with hsame | ⟨j, t', he, ht', hret, -⟩
    · exact hpast.trans (by rw [hsame])
    · obtain rfl : i = j := by simpa using he
      obtain rfl := Option.some.inj (ht.symm.trans ht')
      exact absurd hret hrest
  | @commit i ops t sys hi ht hret hfire =>
    -- a commit is the abstract change: a new moment
    refine ⟨_, .single .change, sim_outside (sim_change h sys) sys (fun s hs => ?_) (fun s ho => ?_) rfl⟩
    · rw [← Option.some.inj (hi.symm.trans hs)]
      rfl
    · rw [← Option.some.inj ho]
      rfl
  | @lock i since hi hfree hnow =>
    -- the mutex is free, so nobody publishes
    have hnone : a.holder = none := by
      have hholds := h.holds
      generalize a.holder = holder at hholds ⊢
      cases hholds with
      | free _ => rfl
      | reading hmutex _ => exact absurd (hfree.symm.trans hmutex) (by simp)
      | showing _ hmutex _ => exact absurd (hfree.symm.trans hmutex) (by simp)
    refine ⟨_, .single (.lock hnone (h.moments ▸ hnow)), ?_⟩
    refine ⟨h.moments, h.latest, fun j s hj hs => ?_, .reading rfl setStage_self, h.shows, h.answered, h.queries⟩
    by_cases hji : j = i
    · exact hji ▸ rfl
    · have hmutex := h.owner j s ((setStage_other hji).symm.trans hj) hs
      exact absurd (hfree.symm.trans hmutex) (by simp)
  | @domainRoutes i since byDomain hi hread =>
    have hmutex := h.owner i _ hi rfl
    -- the owner of the mutex is the abstract holder, at the same stage
    have hholder : a.holder = some (.reading since) := by
      have hholds := h.holds
      generalize a.holder = holder at hholds ⊢
      cases hholds with
      | free hnone => exact absurd (hmutex.symm.trans hnone) (by simp)
      | reading hj hj' =>
        obtain rfl := Option.some.inj (hmutex.symm.trans hj)
        obtain ⟨rfl⟩ := Option.some.inj (hi.symm.trans hj')
        rfl
      | showing _ hj hj' =>
        obtain rfl := Option.some.inj (hmutex.symm.trans hj)
        exact absurd (hi.symm.trans hj') (by simp)
    obtain ⟨past, hpast⟩ := h.latest
    have hmoments : a.moments = past ++ [w.sys.committed] := h.moments.trans hpast
    -- what `DomainRoutes` reads is read at the last moment
    refine ⟨_, .single (.read (k := past.length) hholder (by simp [hmoments]) ?_ hread), ?_⟩
    · rw [hmoments]
      simp
    · exact sim_inside h hmutex fun requests hr => .showing past.length rfl hr
  | @setRoutes i since byDomain es hi hes =>
    have hmutex := h.owner i _ hi rfl
    -- what it read is published now
    obtain ⟨k, hholder⟩ : ∃ k, a.holder = some (.showing since k byDomain) := by
      have hholds := h.holds
      generalize a.holder = holder at hholds ⊢
      cases hholds with
      | free hnone => exact absurd (hmutex.symm.trans hnone) (by simp)
      | reading hj hj' =>
        obtain rfl := Option.some.inj (hmutex.symm.trans hj)
        exact absurd (hi.symm.trans hj') (by simp)
      | showing k hj hj' =>
        obtain rfl := Option.some.inj (hmutex.symm.trans hj)
        obtain ⟨rfl, rfl⟩ : since = _ ∧ byDomain = _ := by simpa using hi.symm.trans hj'
        exact ⟨k, rfl⟩
    refine ⟨_, .single (.publish hholder), ?_⟩
    rw [unlock_owner h hi rfl, h.answered]
    exact sim_unlocked h w.sys hmutex rfl ⟨es, hes, rfl⟩
  | @leave i s hi =>
    cases hs : s.locked with
    | false =>
      rw [unlock_other h hi hs]
      refine ⟨a, .refl, sim_outside h _ (fun s' hs' => ?_) (fun s ho => absurd ho (by simp)) rfl⟩
      rw [← Option.some.inj (hi.symm.trans hs')]
      exact hs
    | true =>
      rw [unlock_owner h hi hs]
      obtain ⟨moments, holder, shown, answered, readers⟩ := a
      obtain rfl : answered = w.succeeded := h.answered
      exact ⟨_, .single .drop, sim_unlocked h _ (h.owner i s hi hs) rfl h.shows⟩
  | restart =>
    obtain ⟨past, hpast⟩ := h.latest
    refine ⟨_, .single .restart, h.moments, ⟨past, hpast⟩, fun _ _ hj => absurd hj (by simp), .free rfl, rfl, rfl,
      fun _ _ hr => absurd hr (by simp)⟩
  | @ask r name =>
    refine ⟨_, .single (.ask (r := r)), ?_⟩
    rw [h.answered]
    exact sim_query h ⟨fun _ => rfl, fun up hup => absurd hup (by simp [Query.upstream])⟩
  | @pick r q fields hr hasked hfields =>
    have hreader := (h.queries r q hr).asked hasked
    refine ⟨_, .single (.take hreader), sim_query h ⟨fun he => absurd he (by simp), fun up hup => ⟨_, rfl, ?_⟩⟩⟩
    obtain rfl : Resolver.pick ⟨fields, w.cur.upstream⟩ q.name = up := by simpa [Query.upstream] using hup
    -- the query takes the fields that are shown, in any order of the keys
    have hshows := h.shows
    generalize a.shown = shown at hshows ⊢
    cases shown with
    | none =>
      have hcur : w.cur = initial := hshows
      rw [hcur] at hfields ⊢
      rw [List.Perm.eq_nil hfields]
      rfl
    | some kv =>
      obtain ⟨es, hes, hcur⟩ := hshows
      rw [hcur] at hfields ⊢
      exact ⟨es, fields, hes, hfields, rfl⟩
  | @retry r q up hr hudp =>
    refine ⟨a, .refl, sim_progress h hr (by simp) fun up' hup => ?_⟩
    simp [Query.upstream, hudp] at hup ⊢
    exact hup
  | @reply r q up hr hsent =>
    refine ⟨a, .refl, sim_progress h hr (by simp) fun up' hup => ?_⟩
    rcases hsent with hudp | htcp
    · simp [Query.upstream, hudp] at hup ⊢
      exact hup
    · simp [Query.upstream, htcp] at hup ⊢
      exact hup
  | @giveUp r q hr =>
    refine ⟨a, .refl, sim_progress h hr (by simp) fun up' hup => ?_⟩
    exact absurd hup (by simp [Query.upstream])

theorem sim_steps {db : Db} (h : World.Steps upstream (World.boot db) w) :
    ∃ a, Publish.Steps ReadsDomains (Publish.World.start [db]) a ∧ Sim upstream w a := by
  induction h with
  | refl =>
    refine ⟨_, .refl, rfl, ⟨[], rfl⟩, fun _ _ hj => absurd hj (by simp [World.boot]), .free rfl, rfl, rfl,
      fun _ _ hr => absurd hr (by simp [World.boot])⟩
  | tail _ hstep ih =>
    obtain ⟨a, hsteps, hsim⟩ := ih
    obtain ⟨a', hsteps', hsim'⟩ := sim_step hsim hstep
    exact ⟨a', hsteps.trans hsteps', hsim'⟩

/-! ## Queries -/

/-- The name is under a domain of a node with this server, and every other domain that it is under is shorter or of
    a node with this server too. -/
def SentTo (t : Tables) (name dns : String) : Prop :=
  ∃ n d, Claims t n d ∧ Under (normal d) (normal name) ∧ n.dns = dns ∧
    ∀ n' d', Claims t n' d' → Under (normal d') (normal name) →
      byteLen (normal d') < byteLen (normal d) ∨ n'.dns = dns

theorem sentTo_iff {t : Tables} (wf : t.Constraints) {name dns : String} :
    SentTo t name dns ↔ ∃ e ∈ domainRows t, Under (normal e.1) (normal name) ∧ e.2 = dns ∧
      ∀ e' ∈ domainRows t, Under (normal e'.1) (normal name) →
        byteLen (normal e'.1) < byteLen (normal e.1) ∨ e'.2 = dns := by
  constructor
  · rintro ⟨n, d, hclaims, hunder, hdns, hothers⟩
    refine ⟨(d, n.dns), (mem_domainRows wf).mpr ⟨n, hclaims, rfl⟩, hunder, hdns, fun e he hunder' => ?_⟩
    obtain ⟨n', hclaims', hdns'⟩ := (mem_domainRows wf).mp he
    rw [hdns']
    exact hothers n' e.1 hclaims' hunder'
  · rintro ⟨e, he, hunder, hdns, hothers⟩
    obtain ⟨n, hclaims, hn⟩ := (mem_domainRows wf).mp he
    refine ⟨n, e.1, hclaims, hunder, hn ▸ hdns, fun n' d' hclaims' hunder' => ?_⟩
    exact hothers (d', n'.dns) ((mem_domainRows wf).mpr ⟨n', hclaims', rfl⟩) hunder'

theorem upstream_of_sentTo {t : Tables} (wf : t.Constraints) {default name dns out : String}
    (h : SentTo t name dns) (hout : Upstream t default name out) : out = withPort dns := by
  obtain ⟨r, hr, hunder, hdns, hothers⟩ := (sentTo_iff wf).mp h
  rcases upstream_iff.mp hout with ⟨e, he, hunder', hmax, rfl⟩ | ⟨hnone, -⟩
  · rcases hothers e he hunder' with hshort | hsame
    · exact absurd (hmax r hr hunder) (Nat.not_le.mpr hshort)
    · rw [hsame]
  · exact absurd hunder (hnone r hr)

/-- **Queries.** Let requests, queries and restarts of the panel run beside each other. A query that was sent to a
    server was sent where some state of the database has it go; no request that had succeeded when the query came in
    had got the mutex after that state. Only until the first request since the start has succeeded can it be the
    public server of `New` instead. So when the states since then all send the name to one server, that is the one. -/
theorem queries_fresh {db : Db} (h : World.Steps upstream (World.boot db) w) {r : Nat} {q : Query} {up : String}
    (hr : w.queries r = some q) (hup : q.upstream = some up) :
    ((∃ k c, w.moments[k]? = some c ∧ (∀ f ∈ q.before, f ≤ k) ∧ Upstream c.toTables upstream q.name up) ∨
        q.before = [] ∧ up = "1.1.1.1:53") ∧
      ∀ f ∈ q.before, ∀ dns, (∀ k c, f ≤ k → w.moments[k]? = some c → SentTo c.toTables q.name dns) →
        up = withPort dns := by
  obtain ⟨a, hsteps, hsim⟩ := sim_steps h
  obtain ⟨got, hreader, hsent⟩ := (hsim.queries r q hr).sent up hup
  have hfresh : (∃ k c, w.moments[k]? = some c ∧ (∀ f ∈ q.before, f ≤ k) ∧ Upstream c.toTables upstream q.name up) ∨
      q.before = [] ∧ up = "1.1.1.1:53" := by
    rcases Publish.took_fresh hsteps hreader with ⟨k, byDomain, rfl, ⟨c, hc, hread⟩, hall⟩ | ⟨hbefore, rfl⟩
    · rw [hsim.moments] at hc
      exact .inl ⟨k, c, hc, hall, byDomain, hread, hsent⟩
    · exact .inr ⟨hbefore, hsent⟩
  refine ⟨hfresh, fun f hf dns hstates => ?_⟩
  rcases hfresh with ⟨k, c, hc, hall, hupstream⟩ | ⟨hbefore, -⟩
  · exact upstream_of_sentTo c.wf (hstates k c (hall f hf) hc) hupstream
  · exact absurd hf (by simp [hbefore])

/-- Two nodes with DNS servers, the zone of one below the other's: after the reconcile at start. -/
theorem queries_fresh_nested : ∃ db w q up, World.Steps "" (World.boot db) w ∧ w.queries 0 = some q ∧
    q.name = "www.mmop.gripe." ∧ q.before = [0] ∧ q.upstream = some up ∧ up = withPort "10.0.0.2" := by
  let ops : List Op :=
    [.createNode 1 "office" "" [] ⟨"", "pub1"⟩ "", .createNode 2 "lab" "" [] ⟨"", "pub2"⟩ "",
      .setNodeDNS 1 "10.0.0.2", .setNodeDomains 1 ["mmop.gripe"], .setNodeDNS 2 "10.0.0.3",
      .setNodeDomains 2 ["*.Gripe"]]
  have hrun : (runAll apply Op.body (fun _ _ => true) (Db.boot Awg.demoHub "") ops).map
      (fun db => domainRows db.toTables) = some [("mmop.gripe", "10.0.0.2"), ("gripe", "10.0.0.3")] := by
    decide +kernel
  obtain ⟨db, -, hrows⟩ := Option.map_eq_some_iff.mp hrun
  have hsent : SentTo db.toTables "www.mmop.gripe." "10.0.0.2" := by
    rw [sentTo_iff db.wf, hrows]
    refine ⟨("mmop.gripe", "10.0.0.2"), by simp, by decide +kernel, rfl, ?_⟩
    decide +kernel
  let byDomain : ByDomain := routesOf (domainRows db.toTables)
  -- a request that reconciles, then a query
  let w₁ := (World.boot db).setStage 0 (some (.call []))
  let w₂ : World := { w₁.setStage 0 (some (.reconciling 0)) with mutex := some 0 }
  let w₃ := w₂.setStage 0 (some (.setRoutes 0 byDomain))
  let w₄ : World := { w₃.setStage 0 none with
    mutex := w₃.unlock 0, cur := setRoutes byDomain "", succeeded := [0] }
  let q : Query := ⟨"www.mmop.gripe.", [0], .asked⟩
  let w₅ := w₄.setQuery 0 (some q)
  let up := pick ⟨w₄.cur.byDomain, w₄.cur.upstream⟩ "www.mmop.gripe."
  let w₆ := w₅.setQuery 0 (some { q with progress := .udp up })
  have h₁ : World.Step "" (World.boot db) w₁ := .start rfl
  have h₂ : World.Step "" w₁ w₂ := .lock rfl rfl rfl
  have h₃ : World.Step "" w₂ w₃ := .domainRoutes rfl ⟨_, List.Perm.refl _, rfl⟩
  have h₄ : World.Step "" w₃ w₄ := .setRoutes rfl (List.Perm.refl _)
  have h₅ : World.Step "" w₄ w₅ := .ask
  have h₆ : World.Step "" w₅ w₆ := @World.Step.pick "" w₅ 0 q _ rfl rfl (List.Perm.refl _)
  have hsteps : World.Steps "" (World.boot db) w₆ :=
    (((((Relation.ReflTransGen.single h₁).tail h₂).tail h₃).tail h₄).tail h₅).tail h₆
  have hq : w₆.queries 0 = some { q with progress := .udp up } := rfl
  refine ⟨db, w₆, _, up, hsteps, hq, rfl, rfl, rfl, ?_⟩
  refine (queries_fresh hsteps hq rfl).2 0 List.mem_cons_self "10.0.0.2" fun k c _ hc => ?_
  obtain ⟨rfl, rfl⟩ : k = 0 ∧ db = c := by
    change [db][k]? = some c at hc
    cases k with
    | zero => exact ⟨rfl, by simpa using hc⟩
    | succ k => exact absurd hc (by simp)
  exact hsent

end Resolver
end BeautyAwg
