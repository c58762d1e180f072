import Mathlib.Algebra.Order.Ring.Nat
import Mathlib.Logic.Relation

/-!
# `ConnPool`: calls that share a pool of connections

A pool has `m` connections. A call takes one at a time, waits while none is free, and gives back what it
took; what it does in between decides how it goes on. A call that asks for a connection while it holds one
can bring the pool to a standstill: when all connections are held by such calls, none of them ever moves
again, nor does any call that asks for one (`Starved.of_steps`).

## Contents
- **Calls.** `Call`, `Caller`, `Step`, `Runs`.
- **Starvation.** `Starved`; `Starved.of_steps`: it is for ever.
- **Nesting.** `Nests`: how much a call holds while it asks for more; `le_of_starved`: the calls of a starved
  pool nest at least `m` deep in all.
-/

namespace ConnPool

/-! ## Calls -/

/-- A call, as far as the pool can tell. -/
inductive Call where
  | ret
  | take (k : Call)
  | give (k : Call)
  | work (k : Bool → Call)

/-- A call in progress, with the number of connections it holds. -/
structure Caller (O : Type) where
  op : O
  held : Nat
  rest : Call

/-- The call asks for a connection. -/
def Caller.Waits {O : Type} (t : Caller O) : Prop := ∃ k, t.rest = .take k

/-- The connections that are taken. -/
def taken {O : Type} (ts : List (Caller O)) : Nat := (ts.map Caller.held).sum

variable {O : Type} (prog : O → Call) (m : Nat)

/-- One move: a call starts, gets the connection it asks for, gives one back, works, or ends. -/
inductive Step : List (Caller O) → List (Caller O) → Prop
  | start {ts} (op : O) : Step ts (ts ++ [⟨op, 0, prog op⟩])
  | take {before after op h k} (hfree : taken (before ++ ⟨op, h, .take k⟩ :: after) < m) :
    Step (before ++ ⟨op, h, .take k⟩ :: after) (before ++ ⟨op, h + 1, k⟩ :: after)
  | give {before after op h k} :
    Step (before ++ ⟨op, h + 1, .give k⟩ :: after) (before ++ ⟨op, h, k⟩ :: after)
  | work {before after op h k} (outcome : Bool) :
    Step (before ++ ⟨op, h, .work k⟩ :: after) (before ++ ⟨op, h, k outcome⟩ :: after)
  | ret {before after op} : Step (before ++ ⟨op, 0, .ret⟩ :: after) (before ++ after)

/-- The runs all of whose states satisfy `P`. -/
def Runs (P : List (Caller O) → Prop) : List (Caller O) → List (Caller O) → Prop :=
  Relation.ReflTransGen fun ts ts' => P ts' ∧ Step prog m ts ts'

variable {prog m} {P : List (Caller O) → Prop} {ts ts' before after : List (Caller O)} {t : Caller O}

@[simp] theorem taken_nil : taken ([] : List (Caller O)) = 0 := rfl

@[simp] theorem taken_cons : taken (t :: ts) = t.held + taken ts := by simp [taken]

@[simp] theorem taken_append : taken (ts ++ ts') = taken ts + taken ts' := by simp [taken]

/-! ## Starvation -/

/-- Every connection is held by a call that asks for another one. -/
structure Starved (m : Nat) (ts : List (Caller O)) : Prop where
  full : taken ts = m
  waits : ∀ t ∈ ts, 0 < t.held → t.Waits

/-- No move ends it: a call that holds a connection waits for one, and there is none. -/
theorem Starved.step (h : Starved m ts) (hstep : Step prog m ts ts') : Starved m ts' := by
  obtain ⟨hfull, hwaits⟩ := h
  cases hstep with
  | start op =>
    refine ⟨by simpa using hfull, fun t ht hheld => ?_⟩
    rcases List.mem_append.mp ht with hold | hnew
    · exact hwaits t hold hheld
    · rw [List.mem_singleton.mp hnew] at hheld
      exact absurd hheld (Nat.lt_irrefl 0)
  | take hfree => omega
  | @give before after op h k =>
    obtain ⟨k', hk'⟩ := hwaits ⟨op, h + 1, .give k⟩ (by simp) (Nat.succ_pos h)
    exact absurd hk' (by simp)
  | @work before after op h k outcome =>
    -- only a call without a connection can still work
    have hzero : h = 0 := by
      by_contra hne
      obtain ⟨k', hk'⟩ := hwaits ⟨op, h, .work k⟩ (by simp) (Nat.pos_of_ne_zero hne)
      exact absurd hk' (by simp)
    subst hzero
    refine ⟨by simpa using hfull, fun t ht hheld => ?_⟩
    rcases List.mem_append.mp ht with hb | ht
    · exact hwaits t (List.mem_append_left _ hb) hheld
    · rcases List.mem_cons.mp ht with rfl | ha
      · exact absurd hheld (Nat.lt_irrefl 0)
      · exact hwaits t (List.mem_append_right _ (List.mem_cons_of_mem _ ha)) hheld
  | @ret before after op =>
    refine ⟨by simpa using hfull, fun t ht hheld => hwaits t ?_ hheld⟩
    rcases List.mem_append.mp ht with hb | ha
    · exact List.mem_append_left _ hb
    · exact List.mem_append_right _ (List.mem_cons_of_mem _ ha)

/-- **A starved pool stays starved.** -/
theorem Starved.of_steps (h : Starved m ts) (hrun : Runs prog m P ts ts') : Starved m ts' := by
  induction hrun with
  | refl => exact h
  | tail _ hstep ih => exact ih.step hstep.2

/-! ## Nesting -/

/-- With `h` connections in hand, the call never holds more than `b` while it asks for another one; it gives
    back what it took, and ends with none. -/
def Nests (b : Nat) : Nat → Call → Prop
  | h, .ret => h = 0
  | h, .take k => h ≤ b ∧ Nests b (h + 1) k
  | h, .give k => 0 < h ∧ Nests b (h - 1) k
  | h, .work k => ∀ outcome, Nests b h (k outcome)

/-- Every call in progress nests within the bound of its operation. -/
def WithinBounds (bound : O → Nat) (ts : List (Caller O)) : Prop := ∀ t ∈ ts, Nests (bound t.op) t.held t.rest

/-- One step of any caller keeps every caller within the connections its operation may hold. -/
theorem withinBounds_step {bound : O → Nat} (hprog : ∀ op, Nests (bound op) 0 (prog op))
    (hstep : Step prog m ts ts') (h : WithinBounds bound ts) : WithinBounds bound ts' := by
  -- all but the call that moves are as they were
  have hmove : ∀ {t t' : Caller O}, (Nests (bound t.op) t.held t.rest → Nests (bound t'.op) t'.held t'.rest) →
      ∀ {before after : List (Caller O)}, WithinBounds bound (before ++ t :: after) →
        WithinBounds bound (before ++ t' :: after) := by
    intro t t' hnext before after h x hx
    rcases List.mem_append.mp hx with hb | hx
    · exact h x (List.mem_append_left _ hb)
    · rcases List.mem_cons.mp hx with rfl | ha
      · exact hnext (h t (by simp))
      · exact h x (List.mem_append_right _ (List.mem_cons_of_mem _ ha))
  cases hstep with
  | start op =>
    intro t ht
    rcases List.mem_append.mp ht with hold | hnew
    · exact h t hold
    · rw [List.mem_singleton.mp hnew]
      exact hprog op
  | take hfree =>
    refine hmove ?_ h
    exact fun hnests => hnests.2
  | give =>
    refine hmove ?_ h
    exact fun hnests => hnests.2
  | work outcome =>
    refine hmove ?_ h
    exact fun hnests => hnests outcome
  | ret =>
    intro t ht
    rcases List.mem_append.mp ht with hb | ha
    · exact h t (List.mem_append_left _ hb)
    · exact h t (List.mem_append_right _ (List.mem_cons_of_mem _ ha))

/-- So in every state that a run reaches, no caller holds more connections than its operation nests. -/
theorem withinBounds_of_runs {bound : O → Nat} (hprog : ∀ op, Nests (bound op) 0 (prog op))
    (hrun : Runs prog m P [] ts) : WithinBounds bound ts := by
  induction hrun with
  | refl => exact fun t ht => absurd ht List.not_mem_nil
  | tail _ hstep ih => exact withinBounds_step hprog hstep.2 ih

/-- What waiting calls hold is within their bounds. -/
theorem taken_le {bound : O → Nat} (hbounds : WithinBounds bound ts) (hwaits : ∀ t ∈ ts, 0 < t.held → t.Waits) :
    taken ts ≤ (ts.map fun t => bound t.op).sum := by
  induction ts with
  | nil => exact Nat.le_refl 0
  | cons t ts ih =>
    have ht : t.held ≤ bound t.op := by
      rcases Nat.eq_zero_or_pos t.held with hzero | hpos
      · omega
      · obtain ⟨k, hk⟩ := hwaits t List.mem_cons_self hpos
        have hnests := hbounds t List.mem_cons_self
        rw [hk] at hnests
        exact hnests.1
    have htail := ih (fun x hx => hbounds x (List.mem_cons_of_mem _ hx))
      (fun x hx => hwaits x (List.mem_cons_of_mem _ hx))
    simp only [taken_cons, List.map_cons, List.sum_cons]
    omega

/-- **Starvation takes nesting**: the bounds of the calls in progress add up to the size of the pool. -/
theorem le_of_starved {bound : O → Nat} (hprog : ∀ op, Nests (bound op) 0 (prog op))
    (hrun : Runs prog m P [] ts) (h : Starved m ts) : m ≤ (ts.map fun t => bound t.op).sum := by
  rw [← h.full]
  exact taken_le (withinBounds_of_runs hprog hrun) h.waits

end ConnPool
