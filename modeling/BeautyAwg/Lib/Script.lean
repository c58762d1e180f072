import Mathlib.Algebra.Order.Ring.Nat

/-!
# `Script`: commands run until one fails

A script is a list of lines; it stops at the first line that fails and is not tolerated. Commands act on a
state and report whether they succeeded.

## Contents
- **Running.** `run`, with `run_append` and the lines that cannot stop it (`run_tolerated`); a run to the end
  is a fold (`run_eq_foldl`), and what each line keeps the run keeps (`run_invariant`).
- **Bounds.** `run_loses`, `run_gains`, `run_atLeast`: how far a script lowers or raises a number, line by line.
- **Parts.** `run_map`: a run seen through a part of the state. `hampered`: a host on which some lines fail.
-/

namespace Script

/-- A command, and whether the script goes on when it fails. -/
structure Line (C : Type) where
  tolerated : Bool
  cmd : C
  deriving DecidableEq, Repr

variable {C S : Type} (exec : C → S → S × Bool)

/-- The script's commands up to one that fails without being tolerated, and whether it came to its end. -/
def run : List (Line C) → S → S × Bool
  | [], s => (s, true)
  | l :: ls, s => if (exec l.cmd s).2 || l.tolerated then run ls (exec l.cmd s).1 else ((exec l.cmd s).1, false)

variable {exec} {l : Line C} {ls ls' : List (Line C)} {s s' : S}

/-- A line that goes through hands its state on. -/
theorem run_cons_of_ok (h : exec l.cmd s = (s', true)) : run exec (l :: ls) s = run exec ls s' := by
  simp [run, h]

/-- A tolerated line hands its state on whether or not it went through. -/
theorem run_cons_of_tolerated (h : l.tolerated = true) :
    run exec (l :: ls) s = run exec ls (exec l.cmd s).1 := by
  simp [run, h]

/-- A line that fails and is not tolerated ends the script. -/
theorem run_cons_of_fail (h : exec l.cmd s = (s', false)) (hl : l.tolerated = false) :
    run exec (l :: ls) s = (s', false) := by
  simp [run, h, hl]

/-- A script in two parts runs the second one where the first came through. -/
theorem run_append :
    run exec (ls ++ ls') s =
      if (run exec ls s).2 then run exec ls' (run exec ls s).1 else run exec ls s := by
  induction ls generalizing s with
  | nil => rfl
  | cons l ls ih =>
    simp only [List.cons_append, run]
    split
    · exact ih
    · rfl

theorem run_append_of_ok (h : run exec ls s = (s', true)) : run exec (ls ++ ls') s = run exec ls' s' := by
  rw [run_append, h, if_pos rfl]

theorem run_append_of_fail (h : (run exec ls s).2 = false) : run exec (ls ++ ls') s = run exec ls s := by
  rw [run_append, h, if_neg (by simp)]

/-- Tolerated lines never stop a script. -/
theorem run_tolerated (h : ∀ l ∈ ls, l.tolerated = true) : (run exec ls s).2 = true := by
  induction ls generalizing s with
  | nil => rfl
  | cons l ls ih =>
    rw [run_cons_of_tolerated (h l List.mem_cons_self)]
    exact ih fun l' hl' => h l' (List.mem_cons_of_mem _ hl')

/-- A number that each line lowers by at most its cost. -/
theorem run_loses {f : S → Nat} {cost : Line C → Nat} (h : ∀ l s, f s ≤ f (exec l.cmd s).1 + cost l) :
    f s ≤ f (run exec ls s).1 + (ls.map cost).sum := by
  induction ls generalizing s with
  | nil => exact Nat.le_add_right _ _
  | cons l ls ih =>
    have hl := h l s
    have hrest := ih (s := (exec l.cmd s).1)
    rw [List.map_cons, List.sum_cons]
    simp only [run]
    split
    · omega
    · simp only
      omega

/-- A number that each line raises by at most its gain. -/
theorem run_gains {f : S → Nat} {gain : Line C → Nat} (h : ∀ l s, f (exec l.cmd s).1 ≤ f s + gain l) :
    f (run exec ls s).1 ≤ f s + (ls.map gain).sum := by
  induction ls generalizing s with
  | nil => exact Nat.le_add_right _ _
  | cons l ls ih =>
    have hl := h l s
    have hrest := ih (s := (exec l.cmd s).1)
    rw [List.map_cons, List.sum_cons]
    simp only [run]
    split
    · omega
    · simp only
      omega

/-- A number that each line raises by at least its gain, the strict ones by succeeding. -/
theorem run_atLeast {f : S → Nat} {gain : Line C → Nat}
    (h : ∀ l ∈ ls, ∀ s, (exec l.cmd s).2 = true ∨ l.tolerated = true → f s + gain l ≤ f (exec l.cmd s).1)
    (hok : (run exec ls s).2 = true) : f s + (ls.map gain).sum ≤ f (run exec ls s).1 := by
  induction ls generalizing s with
  | nil => exact Nat.le_refl _
  | cons l ls ih =>
    rw [List.map_cons, List.sum_cons]
    simp only [run] at hok ⊢
    split at hok
    · rename_i hl
      rw [if_pos hl]
      have hline := h l List.mem_cons_self s (by simpa using hl)
      have hrest := ih (fun x hx => h x (List.mem_cons_of_mem _ hx)) hok
      omega
    · exact absurd hok (by simp)

/-- What every line keeps holds at the end, wherever the script stopped. -/
theorem run_invariant {I : S → Prop} (h : ∀ l ∈ ls, ∀ s, I s → I (exec l.cmd s).1) (hs : I s) :
    I (run exec ls s).1 := by
  induction ls generalizing s with
  | nil => exact hs
  | cons l ls ih =>
    have hl := h l List.mem_cons_self s hs
    simp only [run]
    split
    · exact ih (fun x hx => h x (List.mem_cons_of_mem _ hx)) hl
    · exact hl

/-- A script that comes through has run all of its lines in turn. -/
theorem run_eq_foldl (h : (run exec ls s).2 = true) :
    (run exec ls s).1 = ls.foldl (fun s l => (exec l.cmd s).1) s := by
  induction ls generalizing s with
  | nil => rfl
  | cons l ls ih =>
    simp only [run] at h ⊢
    split at h
    · rename_i hl
      rw [if_pos hl, List.foldl_cons]
      exact ih h
    · exact absurd h (by simp)

/-! ## Parts -/

/-- A run seen through a part of the state, where that part decides whether the strict lines succeed. -/
theorem run_map {T : Type} {exec' : C → T → T × Bool} {part : S → T}
    (hpart : ∀ l ∈ ls, ∀ s, part (exec l.cmd s).1 = (exec' l.cmd (part s)).1)
    (hok : ∀ l ∈ ls, l.tolerated = false → ∀ s, (exec l.cmd s).2 = (exec' l.cmd (part s)).2) :
    part (run exec ls s).1 = (run exec' ls (part s)).1 ∧ (run exec ls s).2 = (run exec' ls (part s)).2 := by
  induction ls generalizing s with
  | nil => exact ⟨rfl, rfl⟩
  | cons l ls ih =>
    have hrest := ih (s := (exec l.cmd s).1) (fun x hx => hpart x (List.mem_cons_of_mem _ hx))
      fun x hx => hok x (List.mem_cons_of_mem _ hx)
    rw [hpart l List.mem_cons_self] at hrest
    cases htol : l.tolerated with
    | true =>
      rw [run_cons_of_tolerated htol, run_cons_of_tolerated htol]
      exact hrest
    | false =>
      have hsame := hok l List.mem_cons_self htol s
      simp only [run, htol, Bool.or_false, hsame]
      split
      · exact hrest
      · exact ⟨hpart l List.mem_cons_self s, rfl⟩

/-- The lines of a script with their numbers. -/
def numbered (ls : List (Line C)) : List (Line (C × Nat)) := ls.zipIdx.map fun l => ⟨l.1.tolerated, l.1.cmd, l.2⟩

/-- A host on which the lines with these numbers fail and change nothing. -/
def hampered (exec : C → S → S × Bool) (broken : Nat → Bool) (c : C × Nat) (s : S) : S × Bool :=
  if broken c.2 then (s, false) else exec c.1 s

/-- Numbering the lines changes nothing else about them. -/
theorem map_numbered {β : Type} (f : Line C → β) :
    (numbered ls).map (fun l => f ⟨l.tolerated, l.cmd.1⟩) = ls.map f := by
  rw [numbered, List.map_map]
  show ls.zipIdx.map (f ∘ Prod.fst) = _
  rw [← List.map_map, List.zipIdx_map_fst]

theorem mem_numbered {l : Line (C × Nat)} (h : l ∈ numbered ls) : ⟨l.tolerated, l.cmd.1⟩ ∈ ls := by
  have hmem : (⟨l.tolerated, l.cmd.1⟩ : Line C) ∈ (numbered ls).map fun l => id ⟨l.tolerated, l.cmd.1⟩ :=
    List.mem_map.mpr ⟨l, h, rfl⟩
  rwa [map_numbered, List.map_id] at hmem

end Script
