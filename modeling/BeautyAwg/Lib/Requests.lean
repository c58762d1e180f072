import Mathlib.Tactic.Common

/-!
# `Requests`: calls one after another

A program that makes calls on a shared state, one after another, where a call that is answered with an error throws:
the program stops there, and what its earlier calls did stays. The state can refuse a call. Beside that a call can
be lost on its way, and it can be carried out and still be answered with an error.

## Contents
- **Programs.** `Requests`, `call`, `query`.
- **Runs.** `run`, in which the state alone refuses calls, and `runWith`, where every call has its `Fate`.
- **Runs to the end.** `Ends`, one lemma for each way to build a program, and the loop rules: `ends_forM` (an
  invariant over what is done), `exists_ends_forM` and `ends_forM_iff` (when a loop ends).
- **All runs.** `Moves`: what holds between the states before and after, whatever becomes of the calls.
-/

/-- Programs over states `σ` whose calls fail with `ε`. A call changes the state or reads it. -/
inductive Requests (ε σ α : Type) : Type 1 where
  | ret (a : α)
  | change (f : σ → Except ε σ) (rest : Requests ε σ α)
  | look {β : Type} (f : σ → Except ε β) (rest : β → Requests ε σ α)

namespace Requests

variable {ε σ α β : Type}

/-! ## Programs -/

/-- One program after another. -/
protected def bind : Requests ε σ α → (α → Requests ε σ β) → Requests ε σ β
  | .ret a, g => g a
  | .change f rest, g => .change f (rest.bind g)
  | .look f rest, g => .look f fun b => (rest b).bind g

instance : Monad (Requests ε σ) where
  pure := ret
  bind := Requests.bind

/-- A call that changes the state. A refused one leaves it alone. -/
def call (f : σ → Except ε σ) : Requests ε σ Unit := change f (ret ())

/-- A call that only reads. -/
def query (f : σ → Except ε α) : Requests ε σ α := look f ret

/-! ## Runs -/

/-- The run in which a call fails only if the state refuses it. -/
def run : Requests ε σ α → σ → Except ε α × σ
  | .ret a, s => (.ok a, s)
  | .change f rest, s =>
    match f s with
    | .ok s' => rest.run s'
    | .error e => (.error e, s)
  | .look f rest, s =>
    match f s with
    | .ok b => (rest b).run s
    | .error e => (.error e, s)

/-- What becomes of a call that the state does not refuse: it is carried out and answered so, it never arrives, or it
    is carried out and answered with an error. -/
inductive Fate where
  | done
  | refused
  | unsure
  deriving DecidableEq, Repr

/-- The run in which `fate i` becomes of the `i`-th call, from a given one on. -/
def runWith (fate : Nat → Fate) : Nat → Requests ε σ α → σ → Option α × σ
  | _, .ret a, s => (some a, s)
  | i, .change f rest, s =>
    match f s, fate i with
    | .ok s', .done => runWith fate (i + 1) rest s'
    | .ok s', .unsure => (none, s')
    | _, _ => (none, s)
  | i, .look f rest, s =>
    match f s, fate i with
    | .ok b, .done => runWith fate (i + 1) (rest b) s
    | _, _ => (none, s)

variable {s s' : σ} {t : Requests ε σ α} {fate : Nat → Fate} {i : Nat}

/-- A page's action that goes on after a request runs the rest on what the request left. -/
theorem run_bind {f : α → Requests ε σ β} : (t >>= f).run s =
    match t.run s with
    | (.ok a, s₁) => (f a).run s₁
    | (.error e, s₁) => (.error e, s₁) := by
  show (t.bind f).run s = _
  induction t generalizing s with
  | ret a => rfl
  | change g rest ih =>
    simp only [Requests.bind, run]
    cases g s with
    | ok s₁ => exact ih
    | error e => rfl
  | look g rest ih =>
    simp only [Requests.bind, run]
    cases g s with
    | ok b => exact ih b
    | error e => rfl

/-- The rest goes on counting where the first part stopped. -/
theorem runWith_bind {f : α → Requests ε σ β} : ∃ j, runWith fate i (t >>= f) s =
    match runWith fate i t s with
    | (some a, s₁) => runWith fate j (f a) s₁
    | (none, s₁) => (none, s₁) := by
  show ∃ j, runWith fate i (t.bind f) s = _
  induction t generalizing s i with
  | ret a => exact ⟨i, rfl⟩
  | change g rest ih =>
    simp only [Requests.bind, runWith]
    cases g s with
    | error e => exact ⟨i, rfl⟩
    | ok s₁ =>
      cases fate i with
      | done => exact ih
      | refused | unsure => exact ⟨i, rfl⟩
  | look g rest ih =>
    simp only [Requests.bind, runWith]
    cases g s with
    | error e => exact ⟨i, rfl⟩
    | ok b =>
      cases fate i with
      | done => exact ih b
      | refused | unsure => exact ⟨i, rfl⟩

/-! ## Runs to the end -/

/-- From `s` the program ends without an error, with `a` and in `s'`. -/
def Ends (t : Requests ε σ α) (s : σ) (a : α) (s' : σ) : Prop := t.run s = (.ok a, s')

/-- An action that ends when nothing fails ends so under the fates of a quiet network. -/
theorem runWith_of_ends {a : α} (h : Ends t s a s') : runWith (fun _ => .done) i t s = (some a, s') := by
  induction t generalizing s i with
  | ret b =>
    obtain ⟨hb, rfl⟩ := Prod.mk.inj h
    rw [← Except.ok.inj hb]
    rfl
  | change f rest ih =>
    simp only [Ends, run] at h
    split at h
    · rename_i s₁ hf
      simp only [runWith, hf]
      exact ih h
    · exact absurd (Prod.mk.inj h).1 (by simp)
  | look f rest ih =>
    simp only [Ends, run] at h
    split at h
    · rename_i b hf
      simp only [runWith, hf]
      exact ih b h
    · exact absurd (Prod.mk.inj h).1 (by simp)

/-- An action's end is determined by its start. -/
theorem ends_unique {a a' : α} {s'' : σ} (h : Ends t s a s') (h' : Ends t s a' s'') : a = a' ∧ s' = s'' := by
  obtain ⟨ha, hs⟩ := Prod.mk.inj (Eq.trans h.symm h')
  exact ⟨Except.ok.inj ha, hs⟩

theorem ends_pure {a b : α} : Ends (pure a : Requests ε σ α) s b s' ↔ a = b ∧ s = s' := by
  show ((Except.ok a, s) : Except ε α × σ) = (.ok b, s') ↔ _
  rw [Prod.mk.injEq, Except.ok.injEq]

theorem ends_call {f : σ → Except ε σ} {u : Unit} : Ends (call f) s u s' ↔ f s = .ok s' := by
  simp only [Ends, call, run]
  cases f s with
  | ok s₁ => simp
  | error e => simp

/-- Whatever becomes of a call, it is carried out or leaves the state as it was. -/
theorem runWith_call_cases (fate : Nat → Fate) (i : Nat) (f : σ → Except ε σ) (s : σ) :
    Ends (call f) s () (runWith fate i (call f) s).2 ∨ (runWith fate i (call f) s).2 = s := by
  rw [ends_call]
  simp only [call, runWith]
  cases f s with
  | error e => exact .inr rfl
  | ok s₁ => cases fate i <;> simp

theorem ends_query {f : σ → Except ε α} {a : α} : Ends (query f) s a s' ↔ f s = .ok a ∧ s = s' := by
  simp only [Ends, query, run]
  cases f s with
  | ok b => simp
  | error e => simp

/-- An action in two parts ends when the first part ends and the second one does from there. -/
theorem ends_bind {f : α → Requests ε σ β} {b : β} :
    Ends (t >>= f) s b s' ↔ ∃ a s₁, Ends t s a s₁ ∧ Ends (f a) s₁ b s' := by
  rw [Ends, run_bind]
  rcases hrun : t.run s with ⟨r, s₁⟩
  cases r with
  | error e =>
    constructor
    · intro h
      exact absurd (Prod.mk.inj h).1 (by simp)
    · rintro ⟨a, s₂, ht, -⟩
      rw [Ends, hrun] at ht
      exact absurd (Prod.mk.inj ht).1 (by simp)
  | ok a =>
    constructor
    · intro h
      exact ⟨a, s₁, hrun, h⟩
    · rintro ⟨a', s₂, ht, hf⟩
      rw [Ends, hrun] at ht
      obtain ⟨ha, rfl⟩ := Prod.mk.inj ht
      rw [← Except.ok.inj ha] at hf
      exact hf

/-! ### Loops -/

section Loop

variable {f : α → Requests ε σ Unit} {l : List α} {I : List α → σ → Prop}

theorem ends_forM_nil {u : Unit} : Ends (forM ([] : List α) f) s u s' ↔ s = s' := by
  rw [List.forM_nil, ends_pure]
  exact and_iff_right rfl

theorem ends_forM_cons {x : α} {u : Unit} :
    Ends (forM (x :: l) f) s u s' ↔ ∃ s₁, Ends (f x) s () s₁ ∧ Ends (forM l f) s₁ u s' := by
  rw [List.forM_cons, ends_bind]
  exact ⟨fun ⟨_, s₁, h⟩ => ⟨s₁, h⟩, fun ⟨s₁, h⟩ => ⟨(), s₁, h⟩⟩

/-- What every iteration keeps holds when the loop ends. `I` speaks of the elements done so far. -/
theorem ends_forM
    (hkeep : ∀ done x todo s s', done ++ x :: todo = l → I done s → Ends (f x) s () s' → I (done ++ [x]) s')
    (hI : I [] s) (h : Ends (forM l f) s () s') : I l s' := by
  have hgo : ∀ todo done s, done ++ todo = l → I done s → Ends (forM todo f) s () s' → I l s' := by
    intro todo
    induction todo with
    | nil =>
      intro done s hl hI h
      rw [← hl, List.append_nil, ← ends_forM_nil.mp h]
      exact hI
    | cons x todo ih =>
      intro done s hl hI h
      obtain ⟨s₁, hx, hrest⟩ := ends_forM_cons.mp h
      exact ih (done ++ [x]) s₁ (by rw [← hl, List.append_assoc]; rfl) (hkeep done x todo s s₁ hl hI hx) hrest
  exact hgo l [] s rfl hI h

/-- A loop ends when every step, made where `J` holds, ends where `J` holds. -/
theorem exists_ends_forM {J : σ → Prop} (hstep : ∀ x ∈ l, ∀ s, J s → ∃ s', Ends (f x) s () s' ∧ J s')
    (hJ : J s) : ∃ s', Ends (forM l f) s () s' := by
  induction l generalizing s with
  | nil => exact ⟨s, ends_forM_nil.mpr rfl⟩
  | cons x l ih =>
    obtain ⟨s₁, hx, hJ₁⟩ := hstep x List.mem_cons_self s hJ
    obtain ⟨s', hrest⟩ := ih (fun y hy => hstep y (List.mem_cons_of_mem _ hy)) hJ₁
    exact ⟨s', ends_forM_cons.mpr ⟨s₁, hx, hrest⟩⟩

/-- A loop whose every step ends exactly when `ok` holds of it ends exactly when `ok` holds of every
    step. -/
theorem ends_forM_iff {ok : List α → α → List α → Prop}
    (hkeep : ∀ done x todo s s', done ++ x :: todo = l → I done s → Ends (f x) s () s' → I (done ++ [x]) s')
    (hstep : ∀ done x todo s, done ++ x :: todo = l → I done s →
      ((∃ s', Ends (f x) s () s') ↔ ok done x todo)) (hI : I [] s) :
    (∃ s', Ends (forM l f) s () s') ↔ ∀ done x todo, done ++ x :: todo = l → ok done x todo := by
  -- by induction on what is left, with what is done as the invariant's argument
  have hgo : ∀ todo done s, done ++ todo = l → I done s → ((∃ s', Ends (forM todo f) s () s') ↔
      ∀ pre x post, pre ++ x :: post = todo → ok (done ++ pre) x post) := by
    intro todo
    induction todo with
    | nil =>
      intro done s hl hI
      exact ⟨fun _ pre x post he => absurd he (by simp), fun _ => ⟨s, ends_forM_nil.mpr rfl⟩⟩
    | cons x todo ih =>
      intro done s hl hI
      have hl' : done ++ [x] ++ todo = l := by rw [← hl, List.append_assoc]; rfl
      constructor
      · rintro ⟨s', h⟩ pre y post he
        obtain ⟨s₁, hx, hrest⟩ := ends_forM_cons.mp h
        have htail := (ih (done ++ [x]) s₁ hl' (hkeep done x todo s s₁ hl hI hx)).mp ⟨s', hrest⟩
        cases pre with
        | nil =>
          obtain ⟨rfl, rfl⟩ := List.cons.inj he
          rw [List.append_nil]
          exact (hstep done y post s hl hI).mp ⟨s₁, hx⟩
        | cons z pre =>
          obtain ⟨rfl, hpost⟩ := List.cons.inj he
          have hok := htail pre y post hpost
          rwa [List.append_assoc] at hok
      · intro hok
        have hhead : ok done x todo := by simpa using hok [] x todo rfl
        obtain ⟨s₁, hx⟩ := (hstep done x todo s hl hI).mpr hhead
        obtain ⟨s', hrest⟩ := (ih (done ++ [x]) s₁ hl' (hkeep done x todo s s₁ hl hI hx)).mpr
          fun pre y post he => by
            have := hok (x :: pre) y post (by rw [← he]; rfl)
            rwa [List.append_assoc]
        exact ⟨s', ends_forM_cons.mpr ⟨s₁, hx, hrest⟩⟩
  exact hgo l [] s rfl hI

end Loop

/-! ## All runs -/

/-- Wherever the program starts and stops, the two states are related. -/
def Moves (R : σ → σ → Prop) (t : Requests ε σ α) : Prop := ∀ fate i s, R s (runWith fate i t s).2

section Moves

variable {R : σ → σ → Prop} (hrefl : ∀ s, R s s)

include hrefl

theorem moves_pure (a : α) : Moves R (pure a : Requests ε σ α) := fun _ _ => hrefl

theorem moves_call {f : σ → Except ε σ} (h : ∀ s s', f s = .ok s' → R s s') : Moves R (call f) := by
  intro fate i s
  rcases runWith_call_cases fate i f s with hends | hsame
  · exact h s _ (ends_call.mp hends)
  · rw [hsame]
    exact hrefl s

omit hrefl in
/-- What both parts of an action keep, the action keeps. -/
theorem moves_bind (htrans : ∀ s s' s'', R s s' → R s' s'' → R s s'') {f : α → Requests ε σ β} (ht : Moves R t)
    (hf : ∀ a, Moves R (f a)) : Moves R (t >>= f) := by
  intro fate i s
  obtain ⟨j, hbind⟩ := runWith_bind (t := t) (f := f) (s := s) (i := i)
  have hfirst := ht fate i s
  rw [hbind]
  rcases hrun : runWith fate i t s with ⟨r, s₁⟩
  rw [hrun] at hfirst
  cases r with
  | none => exact hfirst
  | some a => exact htrans s s₁ _ hfirst (hf a fate j s₁)

/-- What every round of a loop keeps, the loop keeps. -/
theorem moves_forM (htrans : ∀ s s' s'', R s s' → R s' s'' → R s s'') {f : α → Requests ε σ Unit} {l : List α}
    (h : ∀ x ∈ l, Moves R (f x)) : Moves R (forM l f) := by
  induction l with
  | nil => exact moves_pure hrefl ()
  | cons x l ih =>
    rw [List.forM_cons]
    exact moves_bind htrans (h x List.mem_cons_self) fun _ => ih fun y hy => h y (List.mem_cons_of_mem _ hy)

end Moves

end Requests
