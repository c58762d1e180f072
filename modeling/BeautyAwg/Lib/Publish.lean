import Mathlib.Logic.Relation
import Mathlib.Tactic.Common

/-!
# `Publish`: what is shown of a state that goes on changing

A state changes at any time. Publishers take a mutex one after another; each reads the state once, puts what it
read where readers take it from, and comes back. A publisher can give up at any point, and a restart forgets what
was shown. A reader is never given less than what the publishers that had come back when it asked were after
(`took_fresh`).

## Contents
- **The system.** `Holder`, `Reader`, `World`, `Step`.
- **Freshness.** `Inv`, `inv_step`, `inv_steps`; `took_fresh`.
-/

namespace Publish

variable {σ V : Type}

/-! ## The system -/

/-- The publisher that has the mutex, with the moment at which it got it; then also with what it read and when. -/
inductive Holder (V : Type) where
  | reading (since : Nat)
  | showing (since k : Nat) (v : V)

/-- A reader, with the moments of the publishers that had come back when it asked. -/
inductive Reader (V : Type) where
  | asked (before : List Nat)
  | took (before : List Nat) (got : Option (Nat × V))

/-- The states so far, the latest one last; a moment is a place in this list. -/
structure World (σ V : Type) where
  moments : List σ
  holder : Option (Holder V)
  shown : Option (Nat × V)
  answered : List Nat
  readers : Nat → Option (Reader V)

/-- One reader's progress. -/
def World.setReader (w : World σ V) (r : Nat) (o : Option (Reader V)) : World σ V :=
  { w with readers := fun r' => if r' = r then o else w.readers r' }

/-- What happens next: the state changes, a writer takes the lock, reads, shows what it has read and answers, or a
    reader asks and takes what is shown. -/
inductive Step (Reads : σ → V → Prop) : World σ V → World σ V → Prop
  | change {w : World σ V} {s : σ} : Step Reads w { w with moments := w.moments ++ [s] }
  | lock {w : World σ V} {since : Nat} (hfree : w.holder = none) (hnow : w.moments.length = since + 1) :
      Step Reads w { w with holder := some (.reading since) }
  | read {w : World σ V} {since k : Nat} {s : σ} {v : V} (hholder : w.holder = some (.reading since))
      (hnow : w.moments.length = k + 1) (hs : w.moments[k]? = some s) (hv : Reads s v) :
      Step Reads w { w with holder := some (.showing since k v) }
  | publish {w : World σ V} {since k : Nat} {v : V} (hholder : w.holder = some (.showing since k v)) :
      Step Reads w { w with holder := none, shown := some (k, v), answered := since :: w.answered }
  | drop {w : World σ V} : Step Reads w { w with holder := none }
  | ask {w : World σ V} {r : Nat} : Step Reads w (w.setReader r (some (.asked w.answered)))
  | take {w : World σ V} {r : Nat} {before : List Nat} (hr : w.readers r = some (.asked before)) :
      Step Reads w (w.setReader r (some (.took before w.shown)))
  | restart {w : World σ V} :
      Step Reads w { w with holder := none, shown := none, answered := [], readers := fun _ => none }

/-- Any number of steps. -/
def Steps (Reads : σ → V → Prop) : World σ V → World σ V → Prop := Relation.ReflTransGen (Step Reads)

/-- Nothing is shown yet. -/
def World.start (moments : List σ) : World σ V := ⟨moments, none, none, [], fun _ => none⟩

/-! ## Freshness -/

variable {Reads : σ → V → Prop} {w w' : World σ V}

/-- What was read at moment `k` is what the state was then. -/
def ReadAt (Reads : σ → V → Prop) (moments : List σ) (k : Nat) (v : V) : Prop :=
  ∃ s, moments[k]? = some s ∧ Reads s v

/-- What was read at a moment stays read at it as the run goes on. -/
theorem ReadAt.append {moments new : List σ} {k : Nat} {v : V} (h : ReadAt Reads moments k v) :
    ReadAt Reads (moments ++ new) k v := by
  obtain ⟨s, hs, hv⟩ := h
  refine ⟨s, ?_, hv⟩
  rw [List.getElem?_append_left (List.getElem?_eq_some_iff.mp hs).1]
  exact hs

theorem ReadAt.lt {moments : List σ} {k : Nat} {v : V} (h : ReadAt Reads moments k v) : k < moments.length := by
  obtain ⟨s, hs, -⟩ := h
  exact (List.getElem?_eq_some_iff.mp hs).1

/-- What is shown is not older than any of these moments. -/
def Covers (shown : Option (Nat × V)) (before : List Nat) : Prop :=
  before = [] ∨ ∃ k v, shown = some (k, v) ∧ ∀ f ∈ before, f ≤ k

/-- What is shown was read at some moment, and covers every change that was answered. -/
structure Inv (Reads : σ → V → Prop) (w : World σ V) : Prop where
  shown : ∀ k v, w.shown = some (k, v) → ReadAt Reads w.moments k v
  answered : Covers w.shown w.answered
  /-- Whoever has the mutex got it after what is shown was read. -/
  reading : ∀ since, w.holder = some (.reading since) →
    since < w.moments.length ∧ ∀ k v, w.shown = some (k, v) → k ≤ since
  showing : ∀ since k v, w.holder = some (.showing since k v) →
    ReadAt Reads w.moments k v ∧ since ≤ k ∧ ∀ k' v', w.shown = some (k', v') → k' ≤ since
  asked : ∀ r before, w.readers r = some (.asked before) → Covers w.shown before
  took : ∀ r before got, w.readers r = some (.took before got) →
    Covers got before ∧ ∀ k v, got = some (k, v) → ReadAt Reads w.moments k v

/-- In the beginning nothing is shown that was not read. -/
theorem inv_start (moments : List σ) : Inv Reads (World.start moments : World σ V) where
  shown := by simp [World.start]
  answered := .inl rfl
  reading := by simp [World.start]
  showing := by simp [World.start]
  asked := by simp [World.start]
  took := by simp [World.start]

/-- What is shown next was read later. -/
theorem Covers.later {shown : Option (Nat × V)} {before : List Nat} {k : Nat} {v : V} (h : Covers shown before)
    (hlater : ∀ k' v', shown = some (k', v') → k' ≤ k) : Covers (some (k, v)) before := by
  rcases h with hnone | ⟨k', v', hshown, hall⟩
  · exact .inl hnone
  · exact .inr ⟨k, v, rfl, fun f hf => Nat.le_trans (hall f hf) (hlater k' v' hshown)⟩

/-- A reader found after a change is the one put in or was there. -/
theorem readers_setReader {r r' : Nat} {o : Option (Reader V)} {x : Reader V}
    (h : (w.setReader r o).readers r' = some x) : o = some x ∨ w.readers r' = some x := by
  unfold World.setReader at h
  dsimp only at h
  split at h
  · exact .inl h
  · exact .inr h

/-- **Step.** -/
theorem inv_step (hinv : Inv Reads w) (h : Step Reads w w') : Inv Reads w' := by
  cases h with
  | change =>
    -- the moments grow at the end, so what was read at one stays read at it
    refine ⟨fun k v hk => (hinv.shown k v hk).append, hinv.answered, fun since hs => ?_, fun since k v hs => ?_,
      hinv.asked, fun r before got hr => ?_⟩
    · obtain ⟨hlt, hlater⟩ := hinv.reading since hs
      exact ⟨by simp only [List.length_append]; omega, hlater⟩
    · obtain ⟨hread, hrest⟩ := hinv.showing since k v hs
      exact ⟨hread.append, hrest⟩
    · obtain ⟨hcovers, hread⟩ := hinv.took r before got hr
      exact ⟨hcovers, fun k v hk => (hread k v hk).append⟩
  | @lock since hfree hnow =>
    refine ⟨hinv.shown, hinv.answered, fun since' hs => ?_, fun _ _ _ hs => by simp at hs, hinv.asked, hinv.took⟩
    obtain rfl : since = since' := by simpa using hs
    refine ⟨by rw [hnow]; exact Nat.lt_succ_self since, fun k v hk => ?_⟩
    -- what is shown was read before now, so before this writer's read
    have hlt := (hinv.shown k v hk).lt
    omega
  | @read since k s v hholder hnow hs hv =>
    refine ⟨hinv.shown, hinv.answered, fun _ hr => by simp at hr, fun since' k' v' hsh => ?_, hinv.asked, hinv.took⟩
    obtain ⟨rfl, rfl, rfl⟩ : since = since' ∧ k = k' ∧ v = v' := by simpa using hsh
    obtain ⟨hlt, hlater⟩ := hinv.reading since hholder
    exact ⟨⟨s, hs, hv⟩, by omega, hlater⟩
  | @publish since k v hholder =>
    obtain ⟨hread, hle, hlater⟩ := hinv.showing since k v hholder
    -- under the lock only a later value can take the place of the shown one
    have hmono : ∀ k' v', w.shown = some (k', v') → k' ≤ k := fun k' v' hk' => Nat.le_trans (hlater k' v' hk') hle
    refine ⟨fun k' v' hk' => ?_, ?_, fun _ hr => by simp at hr, fun _ _ _ hr => by simp at hr,
      fun r before hr => (hinv.asked r before hr).later hmono, hinv.took⟩
    · obtain ⟨rfl, rfl⟩ : k = k' ∧ v = v' := by simpa using hk'
      exact hread
    · refine .inr ⟨k, v, rfl, fun f hf => ?_⟩
      rcases List.mem_cons.mp hf with rfl | hf
      · exact hle
      · rcases hinv.answered with hnone | ⟨k', v', hshown, hall⟩
        · exact absurd hf (by simp [hnone])
        · exact Nat.le_trans (hall f hf) (hmono k' v' hshown)
  | drop =>
    exact ⟨hinv.shown, hinv.answered, fun _ hr => by simp at hr, fun _ _ _ hr => by simp at hr, hinv.asked, hinv.took⟩
  | ask =>
    refine ⟨hinv.shown, hinv.answered, hinv.reading, hinv.showing, fun r before hr => ?_, fun r before got hr => ?_⟩
    · rcases readers_setReader hr with hnew | hold
      · -- a new reader has to see what had been answered when it came
        obtain rfl : w.answered = before := by simpa using hnew
        exact hinv.answered
      · exact hinv.asked r before hold
    · rcases readers_setReader hr with hnew | hold
      · exact absurd hnew (by simp)
      · exact hinv.took r before got hold
  | @take r before hr =>
    refine ⟨hinv.shown, hinv.answered, hinv.reading, hinv.showing, fun r' before' hr' => ?_,
      fun r' before' got hr' => ?_⟩
    · rcases readers_setReader hr' with hnew | hold
      · exact absurd hnew (by simp)
      · exact hinv.asked r' before' hold
    · rcases readers_setReader hr' with hnew | hold
      · obtain ⟨rfl, rfl⟩ : before = before' ∧ w.shown = got := by simpa using hnew
        exact ⟨hinv.asked r before hr, hinv.shown⟩
      · exact hinv.took r' before' got hold
  | restart =>
    exact ⟨fun _ _ hk => by simp at hk, .inl rfl, fun _ hr => by simp at hr, fun _ _ _ hr => by simp at hr,
      fun _ _ hr => by simp at hr, fun _ _ _ hr => by simp at hr⟩

/-- The invariant holds wherever a run leads. -/
theorem inv_steps {moments : List σ} (h : Steps Reads (World.start moments) w) : Inv Reads w := by
  induction h with
  | refl => exact inv_start moments
  | tail _ hstep ih => exact inv_step ih hstep

/-- **Freshness.** A reader that asked after some publishers had come back is given what one state was, and not a
    state from before any of them got the mutex. -/
theorem took_fresh {moments : List σ} (h : Steps Reads (World.start moments) w) {r : Nat} {before : List Nat}
    {got : Option (Nat × V)} (hr : w.readers r = some (.took before got)) :
    (∃ k v, got = some (k, v) ∧ ReadAt Reads w.moments k v ∧ ∀ f ∈ before, f ≤ k) ∨ before = [] ∧ got = none := by
  obtain ⟨hcovers, hread⟩ := (inv_steps h).took r before got hr
  rcases hcovers with rfl | ⟨k, v, rfl, hall⟩
  · cases got with
    | none => exact .inr ⟨rfl, rfl⟩
    | some kv => exact .inl ⟨kv.1, kv.2, rfl, hread _ _ rfl, by simp⟩
  · exact .inl ⟨k, v, rfl, hread k v rfl, hall⟩

end Publish
