import Mathlib.Data.List.Pairwise
import Mathlib.Data.List.TakeWhile
import Mathlib.Tactic.Common

/-!
# `Updates`: several updates, each on its own

A request that changes several parts of a value with one call each. The calls are made in turn, and the first
that is refused ends the request with the earlier ones in place. When the updates are of different parts, such
a request has changed nothing just when each of the earlier ones wrote what was there (`foldl_eq_iff`).

## Contents
- **In turn.** `runUntil`; `accepted`, `firstRefused`; `Settles`, `runUntil_spec`: what a run does, for calls
  whose refusal does not depend on the calls before them.
- **Apart.** `Laws`, `Apart`; `foldl_has`, `foldl_eq_iff`.
-/

namespace Updates

variable {σ α ε V : Type}

/-! ## In turn -/

/-- Make the calls in turn, up to the first that is refused. -/
def runUntil (step : α → σ → Except ε σ) : List α → σ → σ × Option (α × ε)
  | [], s => (s, none)
  | a :: as, s =>
    match step a s with
    | .ok s' => runUntil step as s'
    | .error e => (s, some (a, e))

/-- The calls before the first that is refused. -/
def accepted (refusal : α → Option ε) : List α → List α := List.takeWhile fun a => (refusal a).isNone

/-- The first of the updates that is refused, with the reason. -/
def firstRefused (refusal : α → Option ε) : List α → Option (α × ε) :=
  List.findSome? fun a => (refusal a).map fun e => (a, e)

/-- What holds between any two entries holds between any two that are accepted. -/
theorem accepted_pairwise {refusal : α → Option ε} {R : α → α → Prop} {as : List α} (h : as.Pairwise R) :
    (accepted refusal as).Pairwise R :=
  h.sublist (List.takeWhile_prefix _).sublist

/-- With no call refused all are accepted. -/
theorem accepted_eq_self {refusal : α → Option ε} {as : List α} (h : firstRefused refusal as = none) :
    accepted refusal as = as := by
  refine List.takeWhile_eq_self_iff.mpr fun a ha => ?_
  have hnone := List.findSome?_eq_none_iff.mp h a ha
  exact Option.isNone_iff_eq_none.mpr (Option.map_eq_none_iff.mp hnone)

/-- A call is refused for the reason given, or it sets its part of the value. `At v s` says that the state is
    the initial one with the value set to `v`. -/
def Settles (step : α → σ → Except ε σ) (refusal : α → Option ε) (set : α → V → V) (At : V → σ → Prop) (a : α)
    (v : V) (s : σ) : Prop :=
  match refusal a with
  | some e => step a s = .error e
  | none => ∃ s', step a s = .ok s' ∧ At (set a v) s'

/-- What a run does. -/
theorem runUntil_spec {step : α → σ → Except ε σ} {refusal : α → Option ε} {set : α → V → V} {At : V → σ → Prop}
    {as : List α} (hstep : ∀ a ∈ as, ∀ v s, At v s → Settles step refusal set At a v s) {v : V} {s : σ}
    (h : At v s) :
    ∃ s', runUntil step as s = (s', firstRefused refusal as) ∧
      At ((accepted refusal as).foldl (fun v a => set a v) v) s' := by
  induction as generalizing v s with
  | nil => exact ⟨s, rfl, h⟩
  | cons a as ih =>
    have ha := hstep a List.mem_cons_self v s h
    unfold Settles at ha
    cases hr : refusal a with
    | some e =>
      rw [hr] at ha
      refine ⟨s, ?_, ?_⟩
      · rw [runUntil, ha, firstRefused, List.findSome?_cons, hr]
        rfl
      · rw [accepted, List.takeWhile_cons_of_neg (by simp [hr])]
        exact h
    | none =>
      rw [hr] at ha
      obtain ⟨s₁, hs₁, hat⟩ := ha
      obtain ⟨s', hs', hat'⟩ := ih (fun x hx => hstep x (List.mem_cons_of_mem _ hx)) hat
      refine ⟨s', ?_, ?_⟩
      · rw [runUntil, hs₁, firstRefused, List.findSome?_cons, hr]
        exact hs'
      · rw [accepted, List.takeWhile_cons_of_pos (by simp [hr])]
        exact hat'

/-! ## Apart -/

/-- `Has a v` says that the value has in the part of `a` what `a` writes there. -/
structure Laws (set : α → V → V) (Has : α → V → Prop) : Prop where
  has_set : ∀ a v, Has a (set a v)
  set_has : ∀ a v, Has a v → set a v = v

/-- The second update is of another part than the first. -/
def Apart (set : α → V → V) (Has : α → V → Prop) (a b : α) : Prop := ∀ v, Has a (set b v) ↔ Has a v

section Apart

variable {set : α → V → V} {Has : α → V → Prop} {as : List α} {v : V}

/-- Updates of other parts leave this one alone. -/
theorem has_foldl_iff {a : α} (h : ∀ b ∈ as, Apart set Has a b) :
    Has a (as.foldl (fun v b => set b v) v) ↔ Has a v := by
  induction as generalizing v with
  | nil => exact Iff.rfl
  | cons b as ih =>
    rw [List.foldl_cons, ih fun c hc => h c (List.mem_cons_of_mem _ hc)]
    exact h b List.mem_cons_self v

/-- After updates of different parts each part has what was written there. -/
theorem foldl_has (hlaws : Laws set Has) (h : as.Pairwise (Apart set Has)) :
    ∀ a ∈ as, Has a (as.foldl (fun v b => set b v) v) := by
  induction as generalizing v with
  | nil => exact fun a ha => absurd ha List.not_mem_nil
  | cons b as ih =>
    obtain ⟨hb, hrest⟩ := List.pairwise_cons.mp h
    intro a ha
    rcases List.mem_cons.mp ha with rfl | ha
    · exact (has_foldl_iff hb).mpr (hlaws.has_set a v)
    · exact ih hrest a ha

/-- **No change.** Updates of different parts leave the value as it was when each part had what was written. -/
theorem foldl_eq_iff (hlaws : Laws set Has) (h : as.Pairwise (Apart set Has)) :
    as.foldl (fun v b => set b v) v = v ↔ ∀ a ∈ as, Has a v := by
  constructor
  · intro heq a ha
    have hlast := foldl_has (v := v) hlaws h a ha
    rw [heq] at hlast
    exact hlast
  · clear h
    intro hall
    induction as with
    | nil => rfl
    | cons b as ih =>
      rw [List.foldl_cons, hlaws.set_has b v (hall b List.mem_cons_self)]
      exact ih fun a ha => hall a (List.mem_cons_of_mem _ ha)

end Apart

end Updates
