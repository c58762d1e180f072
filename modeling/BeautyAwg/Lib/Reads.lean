import Mathlib.Logic.Relation

/-!
# `Reads`: an answer put together from several queries

A reader runs its queries one after another, each on the state at that moment, while a system moves on. The
answers together are those of one state if no move changes an answer still to come once an earlier answer is
out of date.

## Contents
- `Reading`, `Reading.fire`: the reader beside a system.
- `Stale`, `Keeps`: what a move must not do.
- `linearizes`: the state all the answers are from.
-/

namespace Reads

/-- The system, the queries that have been run with the states they read, those still to come, and the states
    since the reading began. -/
structure Reading (S σ Q : Type) where
  sys : S
  done : List (Q × σ)
  todo : List Q
  moments : List σ

/-- A move of the system, or the next query. -/
inductive Move (E : Type) where
  | sys (e : E)
  | read

variable {S E σ Q : Type}

/-- Nothing has been read yet. -/
def Reading.start (view : S → σ) (queries : List Q) (s : S) : Reading S σ Q := ⟨s, [], queries, [view s]⟩

variable (next : S → E → Option S) (view : S → σ)

/-- One event of the system, or the next query. -/
def Reading.fire (r : Reading S σ Q) : Move E → Option (Reading S σ Q)
  | .sys e => (next r.sys e).map fun s => ⟨s, r.done, r.todo, r.moments ++ [view s]⟩
  | .read =>
    match r.todo with
    | q :: rest => some ⟨r.sys, r.done ++ [(q, view r.sys)], rest, r.moments⟩
    | [] => none

/-- A list of them. -/
def Reading.fireAll : Reading S σ Q → List (Move E) → Option (Reading S σ Q)
  | r, [] => some r
  | r, m :: ms => (r.fire next view m).bind fun r' => Reading.fireAll r' ms

/-- The same, as long as every move passes a check. -/
def Reading.fireAllIf (ok : Reading S σ Q → Reading S σ Q → Bool) :
    Reading S σ Q → List (Move E) → Option (Reading S σ Q)
  | r, [] => some r
  | r, m :: ms => (r.fire next view m).bind fun r' => if ok r r' then Reading.fireAllIf ok r' ms else none

variable (same : Q → σ → σ → Prop)

/-- Some answer is out of date. -/
def Stale (r : Reading S σ Q) : Prop := ∃ p ∈ r.done, ¬ same p.1 p.2 (view r.sys)

/-- A move that leaves an answer out of date changes no answer still to come. -/
def Keeps (r r' : Reading S σ Q) : Prop :=
  Stale view same r' → ∀ q ∈ r.todo, same q (view r.sys) (view r'.sys)

/-- The runs all of whose moves satisfy `P`. -/
def Runs (P : Reading S σ Q → Reading S σ Q → Prop) : Reading S σ Q → Reading S σ Q → Prop :=
  Relation.ReflTransGen fun r r' => P r r' ∧ ∃ m, r.fire next view m = some r'

variable {next view same} {r r' : Reading S σ Q}

/-- A list of moves that goes through is a run, of any relation that its steps keep. -/
theorem runs_of_fireAll {P : Reading S σ Q → Reading S σ Q → Prop} {ms : List (Move E)}
    (hP : ∀ r r' m, m ∈ ms → r.fire next view m = some r' → P r r') (h : r.fireAll next view ms = some r') :
    Runs next view P r r' := by
  induction ms generalizing r with
  | nil =>
    obtain rfl := Option.some.inj h
    exact Relation.ReflTransGen.refl
  | cons m ms ih =>
    obtain ⟨r₁, hm, hrest⟩ := Option.bind_eq_some_iff.mp h
    exact Relation.ReflTransGen.head ⟨hP r r₁ m List.mem_cons_self hm, m, hm⟩
      (ih (fun a b m' hm' => hP a b m' (List.mem_cons_of_mem _ hm')) hrest)

/-- The same where each step is also checked. -/
theorem runs_of_fireAllIf {P : Reading S σ Q → Reading S σ Q → Prop} {ok : Reading S σ Q → Reading S σ Q → Bool}
    {ms : List (Move E)} (hP : ∀ r r', ok r r' = true → P r r') (h : r.fireAllIf next view ok ms = some r') :
    Runs next view P r r' := by
  induction ms generalizing r with
  | nil =>
    obtain rfl := Option.some.inj h
    exact Relation.ReflTransGen.refl
  | cons m ms ih =>
    obtain ⟨r₁, hm, hrest⟩ := Option.bind_eq_some_iff.mp h
    split at hrest
    · rename_i hok
      exact Relation.ReflTransGen.head ⟨hP r r₁ hok, m, hm⟩ (ih hrest)
    · exact absurd hrest (by simp)

/-- Some state of the reading gives all the answers so far, and the answers still to come as they are now. -/
def Linear (view : S → σ) (same : Q → σ → σ → Prop) (r : Reading S σ Q) : Prop :=
  ∃ c ∈ r.moments, (∀ p ∈ r.done, same p.1 p.2 c) ∧ ∀ q ∈ r.todo, same q c (view r.sys)

/-- **Step.** While no answer is out of date the point is now; afterwards it stays where it was. -/
theorem linear_fire (heq : ∀ q, Equivalence (same q)) {m : Move E} (hlin : Linear view same r)
    (hm : r.fire next view m = some r') (hkeeps : Keeps view same r r') : Linear view same r' := by
  obtain ⟨c, hc, hdone, htodo⟩ := hlin
  cases m with
  | sys e =>
    obtain ⟨s, -, rfl⟩ := Option.map_eq_some_iff.mp hm
    by_cases hstale : Stale view same ⟨s, r.done, r.todo, r.moments ++ [view s]⟩
    · refine ⟨c, List.mem_append_left _ hc, hdone, fun q hq => ?_⟩
      exact (heq q).trans (htodo q hq) (hkeeps hstale q hq)
    · refine ⟨view s, List.mem_append_right _ List.mem_cons_self, fun p hp => ?_, fun q _ => (heq q).refl _⟩
      exact Classical.byContradiction fun hne => hstale ⟨p, hp, hne⟩
  | read =>
    simp only [Reading.fire] at hm
    split at hm
    · rename_i q rest hrest
      obtain rfl := Option.some.inj hm
      rw [hrest] at htodo
      refine ⟨c, hc, fun p hp => ?_, fun q' hq' => htodo q' (List.mem_cons_of_mem _ hq')⟩
      rcases List.mem_append.mp hp with hp | hp
      · exact hdone p hp
      · rw [List.mem_singleton.mp hp]
        exact (heq q).symm (htodo q List.mem_cons_self)
    · exact absurd hm (by simp)

/-- **A point of time.** In a run whose moves all keep the answers still to come while one is out of date, some
    state since the beginning gives all the answers. -/
theorem linearizes (heq : ∀ q, Equivalence (same q)) {queries : List Q} {s : S}
    (h : Runs next view (Keeps view same) (.start view queries s) r) :
    ∃ c ∈ r.moments, ∀ p ∈ r.done, same p.1 p.2 c := by
  have hlin : Linear view same r := by
    induction h with
    | refl =>
      exact ⟨view s, List.mem_cons_self, fun p hp => absurd hp List.not_mem_nil, fun q _ => (heq q).refl _⟩
    | tail _ hstep ih =>
      obtain ⟨hkeeps, m, hm⟩ := hstep
      exact linear_fire heq ih hm hkeeps
  obtain ⟨c, hc, hdone, -⟩ := hlin
  exact ⟨c, hc, hdone⟩

end Reads
