import Mathlib.Data.Finset.Card
import Mathlib.Data.Finset.Dedup
import Mathlib.Order.Bounds.Defs
import Mathlib.Tactic.Common

/-!
# `Draws`: values that differ, by drawing again

A source answers one draw after another, or fails. A loop that needs values that differ draws again on a
repeat, so it ends only on a source with enough of them.

## Contents
- **The loop.** `drawNew`, `drawDistinct`.
- **What was drawn.** `drawn`, `Collected`.
- **Runs.** `collected_drawDistinct`: a loop that ends took the fewest draws it could.
  `exists_drawDistinct`: it ends where the source has enough values.
-/

namespace Draws

variable {ε α : Type} [DecidableEq α] (draw : Nat → Except ε α)

/-! ## The loop -/

/-- From draw `i` on, the first value not seen, and the number of the next draw. `none`: `fuel` draws were
    not enough. -/
def drawNew (seen : List α) : Nat → Nat → Option (Except ε (α × Nat))
  | 0, _ => none
  | fuel + 1, i =>
    match draw i with
    | .error e => some (.error e)
    | .ok v => if v ∈ seen then drawNew seen fuel (i + 1) else some (.ok (v, i + 1))

/-- `slots` more values, each one new. -/
def drawDistinct (fuel : Nat) : Nat → List α → Nat → Option (Except ε (List α × Nat))
  | 0, seen, i => some (.ok (seen, i))
  | slots + 1, seen, i =>
    match drawNew draw seen fuel i with
    | none => none
    | some (.error e) => some (.error e)
    | some (.ok (v, j)) => drawDistinct fuel slots (seen ++ [v]) j

/-! ## What was drawn -/

/-- The values among the first `n` draws. -/
def drawn (n : Nat) : Finset α := ((List.range n).filterMap fun i => (draw i).toOption).toFinset

variable {draw} {seen l : List α} {fuel slots i j n : Nat} {v : α}

/-- The values drawn so far are those of the draws made so far. -/
theorem mem_drawn : v ∈ drawn draw n ↔ ∃ i < n, draw i = .ok v := by
  rw [drawn, List.mem_toFinset, List.mem_filterMap]
  have hv : ∀ i, (draw i).toOption = some v ↔ draw i = .ok v := fun i => by
    cases draw i <;> simp [Except.toOption]
  exact ⟨fun ⟨i, hi, h⟩ => ⟨i, List.mem_range.mp hi, (hv i).mp h⟩,
    fun ⟨i, hi, h⟩ => ⟨i, List.mem_range.mpr hi, (hv i).mpr h⟩⟩

/-- More draws only add values. -/
theorem drawn_mono (h : i ≤ j) : drawn draw i ⊆ drawn draw j := by
  intro v hv
  obtain ⟨m, hm, hdraw⟩ := mem_drawn.mp hv
  exact mem_drawn.mpr ⟨m, Nat.lt_of_lt_of_le hm h, hdraw⟩

/-- The loop holds `seen` before draw `i`: every value drawn, each once, and one draw fewer has fewer. -/
structure Collected (draw : Nat → Except ε α) (seen : List α) (i : Nat) : Prop where
  nodup : seen.Nodup
  mem : ∀ v, v ∈ seen ↔ v ∈ drawn draw i
  least : IsLeast {n | seen.length ≤ (drawn draw n).card} i

theorem collected_nil : Collected draw [] 0 where
  nodup := List.nodup_nil
  mem v := by simp [mem_drawn]
  least := ⟨Nat.zero_le _, fun n _ => Nat.zero_le n⟩

/-- As many distinct values were drawn as were collected. -/
theorem Collected.card (h : Collected draw seen i) : (drawn draw i).card = seen.length := by
  rw [← List.toFinset_card_of_nodup h.nodup]
  congr 1
  ext v
  rw [List.mem_toFinset, h.mem]

/-! ## Runs -/

/-- The draws of one slot: repeats, then a value that is new. -/
theorem draws_of_drawNew (h : drawNew draw seen fuel i = some (.ok (v, j))) :
    v ∉ seen ∧ ∃ k, j = i + k + 1 ∧ draw (i + k) = .ok v ∧ ∀ m < k, ∃ w ∈ seen, draw (i + m) = .ok w := by
  induction fuel generalizing i with
  | zero => cases h
  | succ fuel ih =>
    rw [drawNew] at h
    cases hdraw : draw i with
    | error e => simp [hdraw] at h
    | ok w =>
      rw [hdraw] at h
      by_cases hw : w ∈ seen
      · obtain ⟨hv, k, hj, hk, hrep⟩ := ih (by simpa [hw] using h)
        refine ⟨hv, k + 1, by omega, by rw [← hk]; congr 1; omega, fun m hm => ?_⟩
        cases m with
        | zero => exact ⟨w, hw, hdraw⟩
        | succ m =>
          obtain ⟨w', hw', hm'⟩ := hrep m (by omega)
          exact ⟨w', hw', by rw [← hm']; congr 1; omega⟩
      · have hvj : w = v ∧ i + 1 = j := by simpa [hw] using h
        obtain ⟨rfl, rfl⟩ := hvj
        exact ⟨hw, 0, rfl, hdraw, fun m hm => absurd hm (Nat.not_lt_zero m)⟩

/-- A new value that was found joins the collected ones, and the draws move on. -/
theorem Collected.step (hc : Collected draw seen i) (h : drawNew draw seen fuel i = some (.ok (v, j))) :
    Collected draw (seen ++ [v]) j := by
  obtain ⟨hv, k, rfl, hk, hrep⟩ := draws_of_drawNew h
  -- the repeats before the new value add nothing
  have hbefore : ∀ w, w ∈ drawn draw (i + k) ↔ w ∈ seen := by
    intro w
    constructor
    · intro hw
      obtain ⟨m, hm, hdraw⟩ := mem_drawn.mp hw
      rcases Nat.lt_or_ge m i with hlt | hge
      · exact (hc.mem w).mpr (mem_drawn.mpr ⟨m, hlt, hdraw⟩)
      · obtain ⟨w', hw', hm'⟩ := hrep (m - i) (by omega)
        rw [Nat.add_sub_cancel' hge, hdraw] at hm'
        exact Except.ok.inj hm' ▸ hw'
    · exact fun hw => drawn_mono (Nat.le_add_right i k) ((hc.mem w).mp hw)
  have hmem : ∀ w, w ∈ seen ++ [v] ↔ w ∈ drawn draw (i + k + 1) := by
    intro w
    rw [List.mem_append, List.mem_singleton, mem_drawn]
    constructor
    · rintro (hw | rfl)
      · obtain ⟨m, hm, hdraw⟩ := mem_drawn.mp ((hbefore w).mpr hw)
        exact ⟨m, by omega, hdraw⟩
      · exact ⟨i + k, by omega, hk⟩
    · rintro ⟨m, hm, hdraw⟩
      rcases Nat.lt_or_ge m (i + k) with hlt | hge
      · exact .inl ((hbefore w).mp (mem_drawn.mpr ⟨m, hlt, hdraw⟩))
      · rw [show m = i + k by omega, hk] at hdraw
        exact .inr (Except.ok.inj hdraw).symm
  have hnodup : (seen ++ [v]).Nodup :=
    hc.nodup.append (List.nodup_singleton v) fun w hw hwv => hv (List.mem_singleton.mp hwv ▸ hw)
  have hcard : (drawn draw (i + k + 1)).card = (seen ++ [v]).length := by
    rw [← List.toFinset_card_of_nodup hnodup]
    congr 1
    ext w
    rw [List.mem_toFinset, hmem]
  refine ⟨hnodup, hmem, hcard.ge, fun n hn => ?_⟩
  by_contra hlt
  have hle : (drawn draw n).card ≤ (drawn draw (i + k)).card := Finset.card_le_card (drawn_mono (by omega))
  have hsame : drawn draw (i + k) = drawn draw i := by
    ext w
    rw [hbefore, hc.mem]
  have hlen : seen.length + 1 ≤ (drawn draw n).card := by simpa using hn
  rw [hsame, hc.card] at hle
  omega

/-- What the loop ends with. -/
theorem collected_drawDistinct (hc : Collected draw seen i)
    (h : drawDistinct draw fuel slots seen i = some (.ok (l, n))) :
    Collected draw l n ∧ l.length = seen.length + slots := by
  induction slots generalizing seen i with
  | zero =>
    obtain ⟨rfl, rfl⟩ : seen = l ∧ i = n := by simpa [drawDistinct] using h
    exact ⟨hc, rfl⟩
  | succ slots ih =>
    rw [drawDistinct] at h
    split at h
    · cases h
    · simp at h
    · rename_i v j hnew
      obtain ⟨hl, hlen⟩ := ih (hc.step hnew) h
      refine ⟨hl, ?_⟩
      rw [hlen, List.length_append, List.length_singleton, Nat.add_assoc, Nat.add_comm 1]

/-- Where a draw still to come gives a value not seen before, enough fuel finds a new one. -/
theorem exists_drawNew (hok : ∀ m < n, ∃ v, draw m = .ok v) (hfuel : n ≤ i + fuel)
    (hnew : ∃ m, i ≤ m ∧ m < n ∧ ∀ w ∈ seen, draw m ≠ .ok w) :
    ∃ v j, drawNew draw seen fuel i = some (.ok (v, j)) := by
  induction fuel generalizing i with
  | zero =>
    obtain ⟨m, him, hmn, -⟩ := hnew
    omega
  | succ fuel ih =>
    obtain ⟨m, him, hmn, hm⟩ := hnew
    obtain ⟨w, hw⟩ := hok i (by omega)
    by_cases hseen : w ∈ seen
    · have hne : i ≠ m := fun he => hm w hseen (he ▸ hw)
      obtain ⟨v, j, h⟩ := ih (i := i + 1) (by omega) ⟨m, by omega, hmn, hm⟩
      exact ⟨v, j, by rw [drawNew, hw]; simpa [hseen] using h⟩
    · exact ⟨w, i + 1, by rw [drawNew, hw]; simp [hseen]⟩

/-- A source that answers its first `n` draws, with enough values among them, fills the slots. -/
theorem exists_drawDistinct (hok : ∀ m < n, ∃ v, draw m = .ok v) (hc : Collected draw seen i)
    (hn : seen.length + slots ≤ (drawn draw n).card) :
    ∃ l j, drawDistinct draw n slots seen i = some (.ok (l, j)) ∧ j ≤ n := by
  induction slots generalizing seen i with
  | zero => exact ⟨seen, i, rfl, hc.least.2 (by simpa using hn)⟩
  | succ slots ih =>
    have hnew : ∃ m, i ≤ m ∧ m < n ∧ ∀ w ∈ seen, draw m ≠ .ok w := by
      have hmore : ¬ drawn draw n ⊆ drawn draw i := fun hsub => by
        have := Finset.card_le_card hsub
        rw [hc.card] at this
        omega
      obtain ⟨w, hw, hnot⟩ := Finset.not_subset.mp hmore
      obtain ⟨m, hm, hdraw⟩ := mem_drawn.mp hw
      refine ⟨m, ?_, hm, fun w' hw' he => hnot ?_⟩
      · by_contra hlt
        exact hnot (mem_drawn.mpr ⟨m, by omega, hdraw⟩)
      · rw [hdraw] at he
        exact Except.ok.inj he ▸ (hc.mem w').mp hw'
    obtain ⟨v, j, hv⟩ := exists_drawNew hok (Nat.le_add_left n i) hnew
    obtain ⟨l, j', hl, hj'⟩ := ih (hc.step hv) (by
      rw [List.length_append, List.length_singleton]
      omega)
    exact ⟨l, j', by rw [drawDistinct, hv]; exact hl, hj'⟩

end Draws
