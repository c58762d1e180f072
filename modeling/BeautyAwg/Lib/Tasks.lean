import Mathlib.Logic.Relation

/-!
# `Tasks`: programs that unfold as they run

A program is a list of tasks over a state. Taking the first one changes the state and either puts other tasks
in its place (none, when it is done) or ends the program with an error. `perform` is told whether the task
meets a fault, which is up to the environment.

## Contents
- **Steps.** `Step`, with or without a fault; `Step.keeps` is the invariant rule.
- **Undisturbed runs.** `Finishes`: no fault, to the end. `finishes_append` cuts a program in two,
  `Finishes.steps` gives the states in between, `Finishes.keeps` is the invariant rule.
- **Computing.** `run` an undisturbed run, `cut` one that a fault ends.
-/

namespace Tasks

variable {T S : Type} (perform : T → Bool → S → S × Option (List T))

/-- The first task's next command, and what comes in the task's place. -/
inductive Step : List T × S → List T × S → Prop
  | goOn {t : T} {ts new : List T} {s s' : S} {fault : Bool} (h : perform t fault s = (s', some new)) :
      Step (t :: ts, s) (new ++ ts, s')
  | stop {t : T} {ts : List T} {s s' : S} {fault : Bool} (h : perform t fault s = (s', none)) :
      Step (t :: ts, s) ([], s')

/-- Run to the end without a fault. -/
inductive Finishes : List T → S → S → Prop
  | nil {s : S} : Finishes [] s s
  | cons {t : T} {ts new : List T} {s s' s'' : S} (h : perform t false s = (s', some new))
      (hrest : Finishes (new ++ ts) s' s'') : Finishes (t :: ts) s s''

variable {perform} {t : T} {ts ts' : List T} {s s' s'' : S} {G : T → Prop} {P : S → Prop}

/-- One step keeps what every task that may stand in the program keeps. -/
theorem Step.keeps {c c' : List T × S} (h : Step perform c c')
    (hperform : ∀ t fault s, G t → P s → P (perform t fault s).1 ∧
      ∀ new, (perform t fault s).2 = some new → ∀ u ∈ new, G u)
    (hts : ∀ t ∈ c.1, G t) (hs : P c.2) : (∀ t ∈ c'.1, G t) ∧ P c'.2 := by
  cases h with
  | @goOn t ts new s s' fault h =>
    have hkeep := hperform t fault s (hts t List.mem_cons_self) hs
    rw [h] at hkeep
    refine ⟨fun u hu => ?_, hkeep.1⟩
    rcases List.mem_append.mp hu with hu | hu
    · exact hkeep.2 new rfl u hu
    · exact hts u (List.mem_cons_of_mem _ hu)
  | @stop t ts s s' fault h =>
    have hkeep := hperform t fault s (hts t List.mem_cons_self) hs
    rw [h] at hkeep
    exact ⟨fun u hu => absurd hu List.not_mem_nil, hkeep.1⟩

/-- A list finishes when its first task does and the rest finishes behind what that one added. -/
theorem Finishes.cons_iff :
    Finishes perform (t :: ts) s s'' ↔
      ∃ s' new, perform t false s = (s', some new) ∧ Finishes perform (new ++ ts) s' s'' := by
  constructor
  · intro h
    cases h with
    | cons h hrest => exact ⟨_, _, h, hrest⟩
  · rintro ⟨s', new, h, hrest⟩
    exact .cons h hrest

/-- A program of two parts runs the one and then the other. -/
theorem finishes_append :
    Finishes perform (ts ++ ts') s s'' ↔ ∃ s', Finishes perform ts s s' ∧ Finishes perform ts' s' s'' := by
  constructor
  · intro h
    generalize hall : ts ++ ts' = all at h
    induction h generalizing ts with
    | nil =>
      obtain ⟨rfl, rfl⟩ := List.append_eq_nil_iff.mp hall
      exact ⟨_, .nil, .nil⟩
    | @cons t us new s s₁ s₂ h hrest ih =>
      cases ts with
      | nil =>
        obtain rfl : ts' = t :: us := hall
        exact ⟨s, .nil, .cons h hrest⟩
      | cons u ts =>
        obtain ⟨rfl, rfl⟩ := List.cons.inj hall
        obtain ⟨m, hm, hm'⟩ := @ih (new ++ ts) (List.append_assoc _ _ _)
        exact ⟨m, .cons h hm, hm'⟩
  · rintro ⟨m, hm, hm'⟩
    induction hm with
    | nil => exact hm'
    | @cons t ts new s s₁ s₂ h _ ih =>
      apply Finishes.cons h
      show Finishes perform (new ++ (ts ++ ts')) s₁ s''
      rw [← List.append_assoc]
      exact ih hm'

theorem Finishes.one (h : perform t false s = (s', some [])) : Finishes perform [t] s s' := .cons h .nil

/-- Two lists that finish one after the other finish as one. -/
theorem Finishes.append (h : Finishes perform ts s s') (h' : Finishes perform ts' s' s'') :
    Finishes perform (ts ++ ts') s s'' :=
  finishes_append.mpr ⟨s', h, h'⟩

/-- The states in between are reached by steps, with the rest of the program ahead. -/
theorem Finishes.steps (h : Finishes perform ts s s') (rest : List T) :
    Relation.ReflTransGen (Step perform) (ts ++ rest, s) (rest, s') := by
  induction h with
  | nil => exact .refl
  | cons h _ ih =>
    refine .head (.goOn h) ?_
    rwa [List.append_assoc] at ih

/-- An undisturbed run keeps what every task in it keeps. -/
theorem Finishes.keeps (h : Finishes perform ts s s')
    (hperform : ∀ t s s' new, G t → P s → perform t false s = (s', some new) → P s' ∧ ∀ u ∈ new, G u)
    (hts : ∀ t ∈ ts, G t) (hs : P s) : P s' := by
  induction h with
  | nil => exact hs
  | @cons t ts new s s₁ s₂ h _ ih =>
    obtain ⟨hs₁, hnew⟩ := hperform t s s₁ new (hts t List.mem_cons_self) hs h
    apply ih _ hs₁
    intro u hu
    rcases List.mem_append.mp hu with hu | hu
    · exact hnew u hu
    · exact hts u (List.mem_cons_of_mem _ hu)

/-! ## Computing -/

/-- The state at the end of an undisturbed run of at most so many tasks. -/
def run (perform : T → Bool → S → S × Option (List T)) : Nat → List T → S → Option S
  | _, [], s => some s
  | 0, _ :: _, _ => none
  | n + 1, t :: ts, s =>
    match perform t false s with
    | (s', some new) => run perform n (new ++ ts) s'
    | (_, none) => none

/-- A run that empties its list within the fuel is one that finishes. -/
theorem finishes_of_run {n : Nat} (h : run perform n ts s = some s') : Finishes perform ts s s' := by
  induction n generalizing ts s with
  | zero =>
    cases ts with
    | nil =>
      obtain rfl := Option.some.inj h
      exact .nil
    | cons t ts => exact absurd h (by simp [run])
  | succ n ih =>
    cases ts with
    | nil =>
      obtain rfl := Option.some.inj h
      exact .nil
    | cons t ts =>
      simp only [run] at h
      split at h
      · rename_i s₁ new hperform
        exact .cons hperform (ih h)
      · exact absurd h (by simp)

/-- The task that meets the only fault, after so many undisturbed ones, and the state it leaves, where the fault
    ends the program. -/
def cut (perform : T → Bool → S → S × Option (List T)) : Nat → List T → S → Option (T × S)
  | _, [], _ => none
  | 0, t :: _, s =>
    match perform t true s with
    | (s', none) => some (t, s')
    | (_, some _) => none
  | n + 1, t :: ts, s =>
    match perform t false s with
    | (s', some new) => cut perform n (new ++ ts) s'
    | (_, none) => none

/-- A run that is cut short takes steps, and each has what undisturbed tasks and the one cut short have. -/
theorem steps_of_cut {n : Nat} {R : List T × S → List T × S → Prop}
    (hgo : ∀ u us new m m', perform u false m = (m', some new) → R (u :: us, m) (new ++ us, m'))
    (hstop : ∀ us m m', perform t true m = (m', none) → R (t :: us, m) ([], m'))
    (h : cut perform n ts s = some (t, s')) :
    Relation.ReflTransGen (fun c c' => Step perform c c' ∧ R c c') (ts, s) ([], s') := by
  induction n generalizing ts s with
  | zero =>
    cases ts with
    | nil => exact absurd h (by simp [cut])
    | cons u us =>
      simp only [cut] at h
      split at h
      · rename_i m hperform
        obtain ⟨rfl, rfl⟩ := Prod.mk.inj (Option.some.inj h)
        exact .single ⟨.stop hperform, hstop us s m hperform⟩
      · exact absurd h (by simp)
  | succ n ih =>
    cases ts with
    | nil => exact absurd h (by simp [cut])
    | cons u us =>
      simp only [cut] at h
      split at h
      · rename_i m new hperform
        exact .head ⟨.goOn hperform, hgo u us new s m hperform⟩ (ih h)
      · exact absurd h (by simp)

end Tasks
