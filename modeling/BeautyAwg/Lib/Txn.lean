import Mathlib.Logic.Relation
import Mathlib.Tactic.Common

/-!
# `Txn`: transactions under READ COMMITTED

A transaction body is a tree of statements. It has two meanings: `run` executes it alone and atomically,
and `fire` interleaves any number of sessions, where a statement sees every commit made before it starts
together with its own session's pending writes, transaction locks are held to the end of the session, and
a commit replays the pending writes on what is committed by then (so a constraint that another session's
commit has meanwhile violated refuses it).

## Contents
- **Bodies.** `Txn` is a monad; `read`, `write`, `exec`, `acquire` are its statements.
- **Alone.** `applyAll`, `run`, `atomically`; `Calls` for one call after another, with `run_induction`;
  `run_alike`: a body that cannot tell two states apart does the same from both.
- **Interleaved.** `Session`, `Sys`, `Event`, `fire`, `Steps`; `stepsIn_of_calls`: calls one after
  another are one interleaving.
- **Rely/guarantee.** `Wp` is the condition under which a body keeps an invariant while others commit;
  `wp_bind`, `wp_mono` compose it. `good_of_steps_where` is the invariant rule, for runs under a condition on
  the whole system, and `good_of_steps` the one for a condition on pairs of sessions.
-/

/-- A transaction body over database states `σ`, writes `ω`, lock keys `κ` and errors `ε`. A statement
    names its writes and what comes next, both as functions of the state it sees. -/
inductive Txn (σ ω κ ε α : Type) where
  | ret (a : α)
  | fail (e : ε)
  | lock (l : κ) (k : Txn σ ω κ ε α)
  | stmt (w : σ → List ω) (k : σ → Txn σ ω κ ε α)

namespace Txn

variable {σ ω κ ε α β : Type}

/-! ## Bodies -/

/-- One body after another, in the same transaction. -/
protected def bind : Txn σ ω κ ε α → (α → Txn σ ω κ ε β) → Txn σ ω κ ε β
  | ret a, f => f a
  | fail e, _ => fail e
  | lock l k, f => lock l (k.bind f)
  | stmt w k, f => stmt w fun v => (k v).bind f

instance : Monad (Txn σ ω κ ε) where
  pure := ret
  bind := Txn.bind

/-- A query. -/
def read (f : σ → α) : Txn σ ω κ ε α := stmt (fun _ => []) fun v => ret (f v)

/-- A statement with one write. -/
def write (w : ω) : Txn σ ω κ ε Unit := stmt (fun _ => [w]) fun _ => ret ()

/-- A statement that reports on the state it ran on. -/
def exec (w : ω) (f : σ → α) : Txn σ ω κ ε α := stmt (fun _ => [w]) fun v => ret (f v)

/-- Wait for a lock and keep it to the end of the transaction. -/
def acquire (l : κ) : Txn σ ω κ ε Unit := lock l (ret ())

/-- Wait for several locks, in order. -/
def acquireAll : List κ → Txn σ ω κ ε Unit
  | [] => ret ()
  | l :: ls => lock l (acquireAll ls)

/-- A statement for each write, in order. -/
def writes : List ω → Txn σ ω κ ε Unit
  | [] => ret ()
  | w :: ws => stmt (fun _ => [w]) fun _ => writes ws

/-- The value of an optional row, or an error when there is none. -/
def orFail (e : ε) : Option α → Txn σ ω κ ε α
  | some a => ret a
  | none => fail e

@[simp] theorem pure_def (a : α) : (pure a : Txn σ ω κ ε α) = ret a := rfl
@[simp] theorem ret_bind (a : α) (f : α → Txn σ ω κ ε β) : ret a >>= f = f a := rfl
@[simp] theorem fail_bind (e : ε) (f : α → Txn σ ω κ ε β) : fail e >>= f = fail e := rfl
@[simp] theorem lock_bind (l : κ) (k : Txn σ ω κ ε α) (f : α → Txn σ ω κ ε β) :
    lock l k >>= f = lock l (k >>= f) := rfl
@[simp] theorem stmt_bind (w : σ → List ω) (k : σ → Txn σ ω κ ε α) (f : α → Txn σ ω κ ε β) :
    stmt w k >>= f = stmt w fun v => k v >>= f := rfl

/-- A transaction in three parts may be cut at either border. -/
protected theorem bind_assoc {γ : Type} (t : Txn σ ω κ ε α) (f : α → Txn σ ω κ ε β) (g : β → Txn σ ω κ ε γ) :
    t >>= f >>= g = t >>= fun a => f a >>= g := by
  induction t with
  | ret a => rfl
  | fail e => rfl
  | lock l k ih => simp only [lock_bind, ih]
  | stmt w k ih => simp only [stmt_bind, ih]

/-- Every write the body can make satisfies `P`. -/
def AllWrites (P : ω → Prop) : Txn σ ω κ ε α → Prop
  | ret _ => True
  | fail _ => True
  | lock _ k => AllWrites P k
  | stmt w k => (∀ v, ∀ x ∈ w v, P x) ∧ ∀ v, AllWrites P (k v)

section AllWrites

variable {P : ω → Prop}

theorem allWrites_true (t : Txn σ ω κ ε α) : AllWrites (fun _ => True) t := by
  induction t with
  | ret a => trivial
  | fail e => trivial
  | lock l k ih => exact ih
  | stmt w k ih => exact ⟨fun _ _ _ => trivial, ih⟩

/-- Writes that are all of one kind are all of any wider kind. -/
theorem AllWrites.mono {P' : ω → Prop} {t : Txn σ ω κ ε α} (h : AllWrites P t) (hP : ∀ w, P w → P' w) :
    AllWrites P' t := by
  induction t with
  | ret a => trivial
  | fail e => trivial
  | lock l k ih => exact ih h
  | stmt w k ih => exact ⟨fun v x hx => hP x (h.1 v x hx), fun v => ih v (h.2 v)⟩

@[simp] theorem allWrites_ret (a : α) : AllWrites P (ret a : Txn σ ω κ ε α) := trivial
@[simp] theorem allWrites_fail (e : ε) : AllWrites P (fail e : Txn σ ω κ ε α) := trivial
@[simp] theorem allWrites_acquire (l : κ) : AllWrites P (acquire l : Txn σ ω κ ε Unit) := trivial

@[simp] theorem allWrites_acquireAll (ls : List κ) :
    AllWrites P (acquireAll ls : Txn σ ω κ ε Unit) := by
  induction ls with
  | nil => trivial
  | cons l ls ih => exact ih

@[simp] theorem allWrites_orFail (e : ε) (o : Option α) :
    AllWrites P (orFail e o : Txn σ ω κ ε α) := by
  cases o <;> trivial

@[simp] theorem allWrites_read (f : σ → α) : AllWrites P (read f : Txn σ ω κ ε α) :=
  ⟨fun _ _ h => absurd h List.not_mem_nil, fun _ => trivial⟩

theorem allWrites_exec {w : ω} (h : P w) (f : σ → α) : AllWrites P (exec w f : Txn σ ω κ ε α) :=
  ⟨fun _ _ hx => List.mem_singleton.mp hx ▸ h, fun _ => trivial⟩

theorem allWrites_write {w : ω} (h : P w) : AllWrites P (write w : Txn σ ω κ ε Unit) :=
  allWrites_exec h _

theorem allWrites_writes {ws : List ω} (h : ∀ w ∈ ws, P w) :
    AllWrites P (writes ws : Txn σ ω κ ε Unit) := by
  induction ws with
  | nil => trivial
  | cons w ws ih =>
    exact ⟨fun _ _ hx => List.mem_singleton.mp hx ▸ h w List.mem_cons_self,
      fun _ => ih fun w' hw' => h w' (List.mem_cons_of_mem _ hw')⟩

/-- A transaction in two parts writes what its parts write. -/
theorem allWrites_bind {t : Txn σ ω κ ε α} {f : α → Txn σ ω κ ε β} (ht : AllWrites P t)
    (hf : ∀ a, AllWrites P (f a)) : AllWrites P (t >>= f) := by
  induction t with
  | ret a => exact hf a
  | fail e => trivial
  | lock l k ih => exact ih ht
  | stmt w k ih => exact ⟨ht.1, fun v => ih v (ht.2 v)⟩

theorem allWrites_orFail_bind {e : ε} {o : Option α} {f : α → Txn σ ω κ ε β}
    (hf : ∀ a, o = some a → AllWrites P (f a)) : AllWrites P (orFail e o >>= f) := by
  cases o with
  | none => trivial
  | some a => exact hf a rfl

end AllWrites

/-! ## Alone -/

section Engine

variable (apply : ω → σ → Except ε σ)

/-- Apply writes in order, up to the first that is refused. -/
def applyAll : List ω → σ → Except ε σ
  | [], s => .ok s
  | w :: ws, s =>
    match apply w s with
    | .ok s' => applyAll ws s'
    | .error e => .error e

/-- Run the body alone; an error leaves no state behind. -/
def run : Txn σ ω κ ε α → σ → Except ε (α × σ)
  | ret a, s => .ok (a, s)
  | fail e, _ => .error e
  | lock _ k, s => run k s
  | stmt w k, s =>
    match applyAll apply (w s) s with
    | .ok s' => run (k s) s'
    | .error e => .error e

/-- Run the body alone and commit; roll back if it fails. -/
def atomically (t : Txn σ ω κ ε α) (s : σ) : σ × Except ε α :=
  match run apply t s with
  | .ok (a, s') => (s', .ok a)
  | .error e => (s, .error e)

variable {apply}

/-- Two runs of writes are applied one after the other. -/
theorem applyAll_append {ws ws' : List ω} {s s' : σ} (h : applyAll apply ws s = .ok s') :
    applyAll apply (ws ++ ws') s = applyAll apply ws' s' := by
  induction ws generalizing s with
  | nil =>
    simp only [applyAll, Except.ok.injEq] at h
    subst h; rfl
  | cons w ws ih =>
    simp only [applyAll, List.cons_append] at h ⊢
    cases hw : apply w s with
    | error e => rw [hw] at h; exact absurd h (by simp)
    | ok t => rw [hw] at h; exact ih h

/-- A property that every single write preserves is preserved by a list of them. -/
theorem applyAll_induction {P : σ → Prop} {ws : List ω}
    (hstep : ∀ w ∈ ws, ∀ s s', apply w s = .ok s' → P s → P s') {s s' : σ}
    (h : applyAll apply ws s = .ok s') (hs : P s) : P s' := by
  induction ws generalizing s with
  | nil =>
    simp only [applyAll, Except.ok.injEq] at h
    exact h ▸ hs
  | cons w ws ih =>
    simp only [applyAll] at h
    cases hw : apply w s with
    | error e => rw [hw] at h; exact absurd h (by simp)
    | ok t =>
      rw [hw] at h
      exact ih (fun w' hw' => hstep w' (List.mem_cons_of_mem _ hw')) h
        (hstep w List.mem_cons_self s t hw hs)

theorem applyAll_cons_ok {w : ω} {ws : List ω} {s s' : σ} :
    applyAll apply (w :: ws) s = .ok s' ↔ ∃ t, apply w s = .ok t ∧ applyAll apply ws t = .ok s' := by
  simp only [applyAll]
  cases apply w s with
  | ok t => simp
  | error e => simp

/-- Run alone, a transaction in two parts runs the second one on what the first left. -/
theorem run_bind {t : Txn σ ω κ ε α} {f : α → Txn σ ω κ ε β} {s : σ} :
    run apply (t >>= f) s =
      match run apply t s with
      | .ok (a, s') => run apply (f a) s'
      | .error e => .error e := by
  induction t generalizing s with
  | ret a => rfl
  | fail e => rfl
  | lock l k ih => exact ih
  | stmt w k ih =>
    simp only [stmt_bind, run]
    cases applyAll apply (w s) s with
    | ok s' => exact ih s
    | error e => rfl

/-- The parts of a sequence that succeeds. -/
theorem run_bind_ok {t : Txn σ ω κ ε α} {f : α → Txn σ ω κ ε β} {b : β} {s s' : σ}
    (h : run apply (t >>= f) s = .ok (b, s')) :
    ∃ a s₁, run apply t s = .ok (a, s₁) ∧ run apply (f a) s₁ = .ok (b, s') := by
  rw [run_bind] at h
  cases ht : run apply t s with
  | error e => rw [ht] at h; exact absurd h (by simp)
  | ok r => exact ⟨r.1, r.2, rfl, by rw [ht] at h; exact h⟩

@[simp] theorem run_ret (a : α) (s : σ) : run apply (ret a : Txn σ ω κ ε α) s = .ok (a, s) := rfl

@[simp] theorem run_fail (e : ε) (s : σ) : run apply (fail e : Txn σ ω κ ε α) s = .error e := rfl

@[simp] theorem run_read (f : σ → α) (s : σ) :
    run apply (read f : Txn σ ω κ ε α) s = .ok (f s, s) := rfl

@[simp] theorem run_acquire (l : κ) (s : σ) :
    run apply (acquire l : Txn σ ω κ ε Unit) s = .ok ((), s) := rfl

@[simp] theorem run_acquireAll (ls : List κ) (s : σ) :
    run apply (acquireAll ls : Txn σ ω κ ε Unit) s = .ok ((), s) := by
  induction ls with
  | nil => rfl
  | cons l ls ih => exact ih

theorem run_write (w : ω) (s : σ) :
    run apply (write w : Txn σ ω κ ε Unit) s = (apply w s).map fun s' => ((), s') := by
  simp only [write, run, applyAll]
  cases apply w s <;> rfl

/-- The call commits, or it fails and nothing has changed. -/
theorem atomically_cases (t : Txn σ ω κ ε α) (s : σ) :
    (∃ a s', run apply t s = .ok (a, s') ∧ atomically apply t s = (s', .ok a)) ∨
      ∃ e, run apply t s = .error e ∧ atomically apply t s = (s, .error e) := by
  unfold atomically
  cases run apply t s with
  | ok r => exact .inl ⟨r.1, r.2, rfl, rfl⟩
  | error e => exact .inr ⟨e, rfl, rfl⟩

/-- A property that every write of a body preserves is preserved by the body alone. -/
theorem run_induction {P : σ → Prop} {W : ω → Prop} (hstep : ∀ w s s', W w → apply w s = .ok s' → P s → P s')
    {t : Txn σ ω κ ε α} (ht : AllWrites W t) {a : α} {s s' : σ} (h : run apply t s = .ok (a, s'))
    (hs : P s) : P s' := by
  induction t generalizing s with
  | ret b =>
    simp only [run, Except.ok.injEq, Prod.mk.injEq] at h
    exact h.2 ▸ hs
  | fail e => exact absurd h (by simp [run])
  | lock l k ih => exact ih ht h hs
  | stmt w k ih =>
    simp only [run] at h
    cases hw : applyAll apply (w s) s with
    | error e => rw [hw] at h; exact absurd h (by simp)
    | ok t =>
      rw [hw] at h
      exact ih s (ht.2 s) h (applyAll_induction (fun x hx s s' => hstep x s s' (ht.1 _ x hx)) hw hs)

/-! ### Two runs -/

section TwoRuns

variable (R : σ → σ → Prop) (W : ω → Prop)

/-- The body cannot tell related states apart, and makes only writes in `W`. -/
def Blind : Txn σ ω κ ε α → Prop
  | ret _ => True
  | fail _ => True
  | lock _ k => Blind k
  | stmt w k => (∀ v v', R v v' → w v = w v' ∧ k v = k v') ∧ (∀ v, ∀ x ∈ w v, W x) ∧ ∀ v, Blind (k v)

/-- Two outcomes are alike: the same error, or related states and the same result. -/
def Alike : Except ε (α × σ) → Except ε (α × σ) → Prop
  | .ok (a, s), .ok (a', s') => a = a' ∧ R s s'
  | .error e, .error e' => e = e'
  | _, _ => False

variable {R W}

/-- Two parts that tell two states apart by nothing do so together. -/
theorem blind_bind {t : Txn σ ω κ ε α} {f : α → Txn σ ω κ ε β} (ht : Blind R W t) (hf : ∀ a, Blind R W (f a)) :
    Blind R W (t >>= f) := by
  induction t with
  | ret a => exact hf a
  | fail e => trivial
  | lock l k ih => exact ih ht
  | stmt w k ih =>
    refine ⟨fun v v' hv => ⟨(ht.1 v v' hv).1, ?_⟩, ht.2.1, fun v => ih v (ht.2.2 v)⟩
    show (k v).bind f = (k v').bind f
    rw [(ht.1 v v' hv).2]

theorem blind_writes {ws : List ω} (h : ∀ w ∈ ws, W w) : Blind R W (writes ws : Txn σ ω κ ε Unit) := by
  induction ws with
  | nil => trivial
  | cons w ws ih =>
    refine ⟨fun _ _ _ => ⟨rfl, rfl⟩, fun _ x hx => ?_, fun _ => ih fun x hx => h x (List.mem_cons_of_mem _ hx)⟩
    rw [List.mem_singleton.mp hx]
    exact h w List.mem_cons_self

theorem blind_write {w : ω} (h : W w) : Blind R W (write w : Txn σ ω κ ε Unit) :=
  ⟨fun _ _ _ => ⟨rfl, rfl⟩, fun _ _ hx => List.mem_singleton.mp hx ▸ h, fun _ => trivial⟩

/-- A write in `W` does the same to related states. -/
def WritesAlike (apply : ω → σ → Except ε σ) (R : σ → σ → Prop) (W : ω → Prop) : Prop :=
  ∀ w s s', W w → R s s' → Alike R ((apply w s).map fun t => ((), t)) ((apply w s').map fun t => ((), t))

/-- Writes that treat two states alike leave them alike. -/
theorem applyAll_alike (hW : WritesAlike apply R W) {ws : List ω} (hws : ∀ w ∈ ws, W w) {s s' : σ}
    (hs : R s s') :
    Alike R ((applyAll apply ws s).map fun t => ((), t)) ((applyAll apply ws s').map fun t => ((), t)) := by
  induction ws generalizing s s' with
  | nil => exact ⟨rfl, hs⟩
  | cons w ws ih =>
    have hstep := hW w s s' (hws w List.mem_cons_self) hs
    simp only [applyAll]
    cases h : apply w s with
    | ok t =>
      cases h' : apply w s' with
      | ok t' =>
        rw [h, h'] at hstep
        exact ih (fun x hx => hws x (List.mem_cons_of_mem _ hx)) hstep.2
      | error e => rw [h, h'] at hstep; exact hstep.elim
    | error e =>
      cases h' : apply w s' with
      | ok t' => rw [h, h'] at hstep; exact hstep.elim
      | error e' => rw [h, h'] at hstep; exact hstep

/-- A blind body does the same from related states. -/
theorem run_alike (hW : WritesAlike apply R W) {t : Txn σ ω κ ε α} (ht : Blind R W t) {s s' : σ} (hs : R s s') :
    Alike R (run apply t s) (run apply t s') := by
  induction t generalizing s s' with
  | ret a => exact ⟨rfl, hs⟩
  | fail e => rfl
  | lock l k ih => exact ih ht hs
  | stmt w k ih =>
    obtain ⟨hsame, hws, hk⟩ := ht
    obtain ⟨hw, hcont⟩ := hsame s s' hs
    have hstep := applyAll_alike hW (hws s) hs
    simp only [run, ← hw, ← hcont]
    cases h : applyAll apply (w s) s with
    | ok t =>
      cases h' : applyAll apply (w s) s' with
      | ok t' =>
        rw [h, h'] at hstep
        exact ih s (hk s) hstep.2
      | error e => rw [h, h'] at hstep; exact hstep.elim
    | error e =>
      cases h' : applyAll apply (w s) s' with
      | ok t' => rw [h, h'] at hstep; exact hstep.elim
      | error e' => rw [h, h'] at hstep; exact hstep

end TwoRuns

variable {O : Type} (apply) (body : O → Txn σ ω κ ε Unit)

/-- A sequence of calls, one at a time, each made where `P` allows it. -/
def Calls (P : O → σ → Prop) : σ → σ → Prop :=
  Relation.ReflTransGen fun s s' => ∃ op, P op s ∧ run apply (body op) s = .ok ((), s')

/-- The state after a list of calls, if none fails and each is made where `ok` allows it. -/
def runAll (ok : O → σ → Bool) : σ → List O → Option σ
  | s, [] => some s
  | s, op :: ops =>
    if ok op s then
      match run apply (body op) s with
      | .ok (_, s') => runAll ok s' ops
      | .error _ => none
    else none

variable {apply body}

/-- A list of calls that go through is a sequence of calls, each made where the check allows it. -/
theorem calls_of_runAll_where {ok : O → σ → Bool} {P : O → Prop} {ops : List O} {s s' : σ} (hops : ∀ op ∈ ops, P op)
    (h : runAll apply body ok s ops = some s') : Calls apply body (fun op s => ok op s = true ∧ P op) s s' := by
  induction ops generalizing s with
  | nil =>
    simp only [runAll, Option.some.injEq] at h
    subst h
    exact Relation.ReflTransGen.refl
  | cons op ops ih =>
    simp only [runAll] at h
    split at h
    · rename_i hok
      cases hr : run apply (body op) s with
      | error e => rw [hr] at h; exact absurd h (by simp)
      | ok r =>
        rw [hr] at h
        exact Relation.ReflTransGen.head ⟨op, ⟨hok, hops op List.mem_cons_self⟩, hr⟩
          (ih (fun o ho => hops o (List.mem_cons_of_mem _ ho)) h)
    · exact absurd h (by simp)

/-- A list of calls that goes through is a sequence of them, each checked on its state. -/
theorem calls_of_runAll {ok : O → σ → Bool} {ops : List O} {s s' : σ}
    (h : runAll apply body ok s ops = some s') : Calls apply body (fun op s => ok op s = true) s s' :=
  Relation.ReflTransGen.mono (fun _ _ hcall => hcall.imp fun _ hop => ⟨hop.1.1, hop.2⟩) _ _
    (calls_of_runAll_where (P := fun _ => True) (fun _ _ => trivial) h)

/-- A single call that succeeds. -/
theorem run_of_runAll {ok : O → σ → Bool} {op : O} {s s' : σ} (h : runAll apply body ok s [op] = some s') :
    run apply (body op) s = .ok ((), s') := by
  simp only [runAll] at h
  split at h
  · cases hr : run apply (body op) s with
    | error e => rw [hr] at h; exact absurd h (by simp)
    | ok r => rw [hr] at h; rw [← Option.some.inj h]
  · exact absurd h (by simp)

/-- A property of the calls made so far and the state, kept by every call. -/
theorem runAll_induction {ok : O → σ → Bool} {I : List O → σ → Prop}
    (hstep : ∀ past op s s', ok op s = true → run apply (body op) s = .ok ((), s') → I past s →
      I (past ++ [op]) s')
    {past ops : List O} {s s' : σ} (h : runAll apply body ok s ops = some s') (hs : I past s) :
    I (past ++ ops) s' := by
  induction ops generalizing past s with
  | nil =>
    simp only [runAll, Option.some.injEq] at h
    rw [List.append_nil]
    exact h ▸ hs
  | cons op ops ih =>
    simp only [runAll] at h
    split at h
    · rename_i hok
      cases hr : run apply (body op) s with
      | error e => rw [hr] at h; exact absurd h (by simp)
      | ok r =>
        rw [hr] at h
        have htail := ih h (hstep past op s r.2 hok hr hs)
        rwa [List.append_assoc] at htail
    · exact absurd h (by simp)

end Engine

/-! ## Interleaved -/

/-- A session in progress: its operation, how many statements it has run, what it has written but not
    committed, and what it has still to do. -/
structure Session (O σ ω κ ε : Type) where
  op : O
  done : Nat
  pending : List ω
  rest : Txn σ ω κ ε Unit

/-- The committed state, the lock table (each key's owner) and the sessions in progress. -/
structure Sys (O σ ω κ ε : Type) where
  committed : σ
  locks : κ → Option Nat
  sessions : Nat → Option (Session O σ ω κ ε)

/-- What can happen next: a session begins, takes its next statement (its commit after the last), or is
    rolled back. -/
inductive Event (O : Type) where
  | start (i : Nat) (op : O)
  | next (i : Nat)
  | rollback (i : Nat)
  deriving DecidableEq

variable {O : Type}

namespace Sys

/-- Only the database, with nothing going on. -/
def idle (c : σ) : Sys O σ ω κ ε := ⟨c, fun _ => none, fun _ => none⟩

/-- The sessions with `i`'s replaced. -/
def setSession (s : Sys O σ ω κ ε) (i : Nat) (t : Option (Session O σ ω κ ε)) :
    Nat → Option (Session O σ ω κ ε) :=
  fun j => if j = i then t else s.sessions j

/-- The lock table without `i`'s locks. -/
def release (s : Sys O σ ω κ ε) (i : Nat) : κ → Option Nat :=
  fun l => if s.locks l = some i then none else s.locks l

/-- Session `i` ends with the committed state `c`. -/
def finish (s : Sys O σ ω κ ε) (i : Nat) (c : σ) : Sys O σ ω κ ε :=
  ⟨c, s.release i, s.setSession i none⟩

end Sys

section Interleaving

variable [DecidableEq κ] (apply : ω → σ → Except ε σ) (body : O → Txn σ ω κ ε Unit)

/-- The next statement of session `i`; `none` when it has to wait or cannot proceed. -/
def advance (s : Sys O σ ω κ ε) (i : Nat) (t : Session O σ ω κ ε) : Option (Sys O σ ω κ ε) :=
  match t.rest with
  | .ret _ =>
    match applyAll apply t.pending s.committed with
    | .ok c => some (s.finish i c)
    | .error _ => none
  | .fail _ => some (s.finish i s.committed)
  | .lock l k =>
    if s.locks l = none ∨ s.locks l = some i then
      some ⟨s.committed, fun l' => if l' = l then some i else s.locks l',
        s.setSession i (some { t with rest := k })⟩
    else none
  | .stmt w k =>
    match applyAll apply t.pending s.committed with
    | .ok v =>
      match applyAll apply (w v) v with
      | .ok _ => some ⟨s.committed, s.locks,
          s.setSession i (some ⟨t.op, t.done + 1, t.pending ++ w v, k v⟩)⟩
      | .error _ => none
    | .error _ => none

/-- The system after an event, if it can happen now. -/
def fire (s : Sys O σ ω κ ε) : Event O → Option (Sys O σ ω κ ε)
  | .start i op =>
    match s.sessions i with
    | none => some ⟨s.committed, s.locks, s.setSession i (some ⟨op, 0, [], body op⟩)⟩
    | some _ => none
  | .next i =>
    match s.sessions i with
    | none => none
    | some t => advance apply s i t
  | .rollback i => some (s.finish i s.committed)

/-- Fire a list of events in order. -/
def fireAll : Sys O σ ω κ ε → List (Event O) → Option (Sys O σ ω κ ε)
  | s, [] => some s
  | s, e :: es => (fire apply body s e).bind fun s' => fireAll s' es

/-- The same, as long as every state that an event starts from passes a check. -/
def fireAllIf (ok : Sys O σ ω κ ε → Bool) : Sys O σ ω κ ε → List (Event O) → Option (Sys O σ ω κ ε)
  | s, [] => some s
  | s, e :: es => if ok s then (fire apply body s e).bind fun s' => fireAllIf ok s' es else none

/-- One event, from a state that satisfies `P`. -/
def StepIn (P : Sys O σ ω κ ε → Prop) (s s' : Sys O σ ω κ ε) : Prop :=
  P s ∧ ∃ e, fire apply body s e = some s'

/-- A run all of whose steps start in `P`. -/
def StepsIn (P : Sys O σ ω κ ε → Prop) : Sys O σ ω κ ε → Sys O σ ω κ ε → Prop :=
  Relation.ReflTransGen (StepIn apply body P)

/-- A run without a condition. -/
def Steps : Sys O σ ω κ ε → Sys O σ ω κ ε → Prop := StepsIn apply body fun _ => True

variable {apply body}

/-- A run in `P` is a run in whatever follows from `P`. -/
theorem stepsIn_mono {P Q : Sys O σ ω κ ε → Prop} {s s' : Sys O σ ω κ ε} (hPQ : ∀ s, P s → Q s)
    (h : StepsIn apply body P s s') : StepsIn apply body Q s s' :=
  Relation.ReflTransGen.mono (fun _ _ hstep => ⟨hPQ _ hstep.1, hstep.2⟩) _ _ h

theorem steps_single {s s' : Sys O σ ω κ ε} {e : Event O} (h : fire apply body s e = some s') :
    Steps apply body s s' :=
  Relation.ReflTransGen.single ⟨trivial, e, h⟩

/-- A list of events that fires is a run. -/
theorem steps_of_fireAll {es : List (Event O)} {s s' : Sys O σ ω κ ε}
    (h : fireAll apply body s es = some s') : Steps apply body s s' := by
  induction es generalizing s with
  | nil =>
    simp only [fireAll, Option.some.injEq] at h
    subst h
    exact Relation.ReflTransGen.refl
  | cons e es ih =>
    simp only [fireAll, Option.bind_eq_some_iff] at h
    obtain ⟨s₁, h₁, h₂⟩ := h
    exact (steps_single h₁).trans (ih h₂)

/-- Where the sessions after an event come from: they were there before, they have just begun, or they have
    run one more statement. -/
theorem session_of_fire {s s' : Sys O σ ω κ ε} {e : Event O} {j : Nat} {t' : Session O σ ω κ ε}
    (h : fire apply body s e = some s') (ht' : s'.sessions j = some t') :
    s.sessions j = some t' ∨ (∃ op, e = .start j op ∧ t' = ⟨op, 0, [], body op⟩) ∨
      ∃ t, s.sessions j = some t ∧
        ((∃ l k, t.rest = .lock l k ∧ t' = { t with rest := k }) ∨
          ∃ w k v, t.rest = .stmt w k ∧ t' = ⟨t.op, t.done + 1, t.pending ++ w v, k v⟩) := by
  -- a move sets one session, so any other one found afterwards was there
  have hset : ∀ {i : Nat} {o : Option (Session O σ ω κ ε)}, s.setSession i o j = some t' →
      s.sessions j = some t' ∨ (j = i ∧ o = some t') := by
    intro i o hset
    by_cases hj : j = i
    · exact Or.inr ⟨hj, by simpa [Sys.setSession, hj] using hset⟩
    · exact Or.inl (by simpa [Sys.setSession, hj] using hset)
  -- and at the end of a transaction that session is gone
  have hfinish : ∀ {i : Nat} {c : σ}, some (s.finish i c) = some s' → s.sessions j = some t' := by
    intro i c hs
    obtain rfl := Option.some.inj hs
    exact (hset ht').elim id fun hnone => absurd hnone.2 (by simp)
  cases e with
  | start i op =>
    simp only [fire] at h
    split at h
    · obtain rfl := Option.some.inj h
      refine (hset ht').imp id fun ⟨hj, ho⟩ => Or.inl ⟨op, by rw [hj], (Option.some.inj ho).symm⟩
    · exact absurd h (by simp)
  | rollback i => exact Or.inl (hfinish h)
  | next i =>
    simp only [fire] at h
    split at h
    · exact absurd h (by simp)
    · rename_i t ht
      obtain ⟨op, n, pend, rest⟩ := t
      cases rest with
      | ret a =>
        simp only [advance] at h
        split at h
        · exact Or.inl (hfinish h)
        · exact absurd h (by simp)
      | fail e => exact Or.inl (hfinish h)
      | lock l k =>
        simp only [advance] at h
        split at h
        · obtain rfl := Option.some.inj h
          refine (hset ht').imp id fun ⟨hj, ho⟩ => Or.inr ⟨_, hj ▸ ht, Or.inl ⟨l, k, rfl, ?_⟩⟩
          exact (Option.some.inj ho).symm
        · exact absurd h (by simp)
      | stmt w k =>
        simp only [advance] at h
        split at h
        · rename_i v _
          split at h
          · obtain rfl := Option.some.inj h
            refine (hset ht').imp id fun ⟨hj, ho⟩ => Or.inr ⟨_, hj ▸ ht, Or.inr ⟨w, k, v, rfl, ?_⟩⟩
            exact (Option.some.inj ho).symm
          · exact absurd h (by simp)
        · exact absurd h (by simp)

/-- No session has this number or a higher one. -/
def Sys.Below (s : Sys O σ ω κ ε) (n : Nat) : Prop := ∀ i, n ≤ i → s.sessions i = none

/-- An event that opens no session from the bound on leaves the bound in place. -/
theorem Sys.Below.fire {s s' : Sys O σ ω κ ε} {e : Event O} {n : Nat} (hs : s.Below n)
    (h : fire apply body s e = some s') (he : ∀ i op, e = .start i op → i < n) : s'.Below n := by
  intro i hi
  by_contra hne
  obtain ⟨t', ht'⟩ := Option.ne_none_iff_exists'.mp hne
  rcases session_of_fire h ht' with hold | ⟨op, hstart, -⟩ | ⟨t, ht, -⟩
  · exact absurd (hold.symm.trans (hs i hi)) (by simp)
  · exact absurd (he i op hstart) (Nat.not_lt.mpr hi)
  · exact absurd (ht.symm.trans (hs i hi)) (by simp)

theorem fireAll_of_fireAllIf {ok : Sys O σ ω κ ε → Bool} {es : List (Event O)} {s s' : Sys O σ ω κ ε}
    (h : fireAllIf apply body ok s es = some s') : fireAll apply body s es = some s' := by
  induction es generalizing s with
  | nil => exact h
  | cons e es ih =>
    obtain ⟨-, hbind⟩ := Option.ite_none_right_eq_some.mp h
    obtain ⟨s₁, h₁, h₂⟩ := Option.bind_eq_some_iff.mp hbind
    exact Option.bind_eq_some_iff.mpr ⟨s₁, h₁, ih h₂⟩

/-- A list of events of the first sessions that fires with a check is a run in what the check says of these. -/
theorem stepsIn_of_fireAllIf {P : Sys O σ ω κ ε → Prop} {ok : Sys O σ ω κ ε → Bool} {n : Nat}
    {es : List (Event O)} {s s' : Sys O σ ω κ ε} (hok : ∀ s, s.Below n → ok s = true → P s) (hs : s.Below n)
    (hes : ∀ i op, Event.start i op ∈ es → i < n) (h : fireAllIf apply body ok s es = some s') :
    StepsIn apply body P s s' := by
  induction es generalizing s with
  | nil =>
    obtain rfl := Option.some.inj h
    exact Relation.ReflTransGen.refl
  | cons e es ih =>
    obtain ⟨hcheck, hbind⟩ := Option.ite_none_right_eq_some.mp h
    obtain ⟨s₁, h₁, h₂⟩ := Option.bind_eq_some_iff.mp hbind
    have hs₁ := hs.fire h₁ fun i op he => hes i op (he ▸ List.mem_cons_self)
    exact Relation.ReflTransGen.head ⟨hok s hs hcheck, e, h₁⟩
      (ih hs₁ (fun i op hm => hes i op (List.mem_cons_of_mem _ hm)) h₂)

/-- What an event commits is some session's pending writes, at its end. -/
theorem committed_of_fire {s s' : Sys O σ ω κ ε} {e : Event O} (h : fire apply body s e = some s') :
    s'.committed = s.committed ∨
      ∃ i t, e = .next i ∧ s.sessions i = some t ∧ t.rest = .ret () ∧
        applyAll apply t.pending s.committed = .ok s'.committed := by
  cases e with
  | start i op =>
    simp only [fire] at h
    split at h
    · exact Or.inl (by rw [← Option.some.inj h])
    · exact absurd h (by simp)
  | rollback i => exact Or.inl (by rw [← Option.some.inj h]; rfl)
  | next i =>
    simp only [fire] at h
    split at h
    · exact absurd h (by simp)
    · rename_i t ht
      simp only [advance] at h
      split at h
      · rename_i hret
        split at h
        · rename_i c hc
          obtain rfl := Option.some.inj h
          -- only a session at its end commits
          exact Or.inr ⟨i, t, rfl, ht, hret, hc⟩
        · exact absurd h (by simp)
      · exact Or.inl (by rw [← Option.some.inj h]; rfl)
      · split at h
        · exact Or.inl (by rw [← Option.some.inj h])
        · exact absurd h (by simp)
      · split at h
        · split at h
          · exact Or.inl (by rw [← Option.some.inj h])
          · exact absurd h (by simp)
        · exact absurd h (by simp)

/-- Every session in progress is of an operation that satisfies `ok`. -/
def OpsIn (ok : O → Prop) (s : Sys O σ ω κ ε) : Prop := ∀ i t, s.sessions i = some t → ok t.op

/-- A move opens no session for an operation outside the set. -/
theorem opsIn_fire {ok : O → Prop} {s s' : Sys O σ ω κ ε} {e : Event O}
    (h : fire apply body s e = some s') (he : ∀ i op, e = .start i op → ok op) (hs : OpsIn ok s) :
    OpsIn ok s' := by
  intro j t' ht'
  rcases session_of_fire h ht' with hold | ⟨op, hstart, rfl⟩ | ⟨t, ht, hnext⟩
  · exact hs j t' hold
  · exact he j op hstart
  · rcases hnext with ⟨l, k, -, rfl⟩ | ⟨w, k, v, -, rfl⟩
    · exact hs j t ht
    · exact hs j t ht

/-- A list of events that starts only such operations is a run of them. -/
theorem stepsIn_of_fireAll {ok : O → Prop} {es : List (Event O)} {s s' : Sys O σ ω κ ε}
    (h : fireAll apply body s es = some s') (hes : ∀ i op, Event.start i op ∈ es → ok op)
    (hs : OpsIn ok s) : StepsIn apply body (OpsIn ok) s s' := by
  induction es generalizing s with
  | nil =>
    simp only [fireAll, Option.some.injEq] at h
    subst h
    exact Relation.ReflTransGen.refl
  | cons e es ih =>
    simp only [fireAll, Option.bind_eq_some_iff] at h
    obtain ⟨s₁, h₁, h₂⟩ := h
    have hs₁ := opsIn_fire h₁ (fun i op he => hes i op (he ▸ List.mem_cons_self)) hs
    exact Relation.ReflTransGen.head ⟨hs, e, h₁⟩
      (ih h₂ (fun i op hm => hes i op (List.mem_cons_of_mem _ hm)) hs₁)

/-- Every session has made, and has left to make, only writes that its operation can make. -/
def Written (W : O → ω → Prop) (s : Sys O σ ω κ ε) : Prop :=
  ∀ i t, s.sessions i = some t → (∀ w ∈ t.pending, W t.op w) ∧ AllWrites (W t.op) t.rest

/-- A move leaves every session with writes of its own operation only. -/
theorem written_fire {W : O → ω → Prop} {s s' : Sys O σ ω κ ε} {e : Event O}
    (hbody : ∀ op, AllWrites (W op) (body op)) (h : fire apply body s e = some s') (hs : Written W s) :
    Written W s' := by
  intro j t' ht'
  rcases session_of_fire h ht' with hold | ⟨op, -, rfl⟩ | ⟨t, ht, hnext⟩
  · exact hs j t' hold
  · exact ⟨fun w hw => absurd hw List.not_mem_nil, hbody op⟩
  · obtain ⟨hpend, hrest⟩ := hs j t ht
    rcases hnext with ⟨l, k, hlock, rfl⟩ | ⟨w, k, v, hstmt, rfl⟩
    · rw [hlock] at hrest
      exact ⟨hpend, hrest⟩
    · rw [hstmt] at hrest
      exact ⟨fun x hx => (List.mem_append.mp hx).elim (hpend x) (hrest.1 v x), hrest.2 v⟩

/-- **Writes keep the invariant**: if every write that an operation can make keeps `I`, whatever state it
    meets, then so does every run of such operations. -/
theorem good_of_writes {ok : O → Prop} {W : O → ω → Prop} {I : σ → Prop} {c : σ} {s : Sys O σ ω κ ε}
    (hbody : ∀ op, AllWrites (W op) (body op))
    (hgood : ∀ op w c c', ok op → W op w → apply w c = .ok c' → I c → I c') (hc : I c)
    (h : StepsIn apply body (OpsIn ok) (Sys.idle c) s) : I s.committed := by
  have hinv : I s.committed ∧ Written W s := by
    induction h with
    | refl => exact ⟨hc, fun i t ht => absurd ht (by simp [Sys.idle])⟩
    | tail _ hstep ih =>
      obtain ⟨hok, e, he⟩ := hstep
      obtain ⟨hg, hwritten⟩ := ih
      refine ⟨?_, written_fire hbody he hwritten⟩
      rcases committed_of_fire he with heq | ⟨i, t, -, ht, -, happly⟩
      · rw [heq]
        exact hg
      · exact applyAll_induction (fun w hw s s' => hgood t.op w s s' (hok i t ht) ((hwritten i t ht).1 w hw))
          happly hg
  exact hinv.1

/-! ### Alone is one interleaving -/

/-- The system in which only session `i` is in progress and only it holds locks. -/
structure Solo (s : Sys O σ ω κ ε) (i : Nat) (t : Session O σ ω κ ε) : Prop where
  locks : ∀ l, s.locks l = none ∨ s.locks l = some i
  here : s.sessions i = some t
  alone : ∀ j, j ≠ i → s.sessions j = none

omit [DecidableEq κ] in
/-- When the only open session ends, none is left open. -/
theorem Solo.finish {s : Sys O σ ω κ ε} {i : Nat} {t : Session O σ ω κ ε} (h : Solo s i t) (c : σ) :
    s.finish i c = Sys.idle c := by
  simp only [Sys.finish, Sys.idle, Sys.mk.injEq, true_and]
  constructor
  · funext l
    rcases h.locks l with hl | hl <;> simp [Sys.release, hl]
  · funext j
    by_cases hj : j = i
    · simp [Sys.setSession, hj]
    · simp [Sys.setSession, hj, h.alone j hj]

/-- A solo session runs to its end like the body alone. The induction is on the body; the pending writes
    stand between the committed state and the state the body sees. -/
theorem solo_stepsIn {W : ω → Prop} {P : Sys O σ ω κ ε → Prop} {op : O} {c : σ}
    (hP : ∀ {s i n pend t}, Solo s i ⟨op, n, pend, t⟩ → s.committed = c → (∀ w ∈ pend, W w) → P s)
    {t : Txn σ ω κ ε Unit} :
    ∀ {s : Sys O σ ω κ ε} {i : Nat} {n : Nat} {pend : List ω} {v v' : σ},
      Solo s i ⟨op, n, pend, t⟩ → s.committed = c → (∀ w ∈ pend, W w) → AllWrites W t →
      applyAll apply pend c = .ok v → run apply t v = .ok ((), v') → StepsIn apply body P s (Sys.idle v') := by
  induction t with
  | ret a =>
    intro s i n pend v v' hs hc hpend _ hp hr
    simp only [run, Except.ok.injEq, Prod.mk.injEq, true_and] at hr
    subst hr
    refine Relation.ReflTransGen.single ⟨hP hs hc hpend, .next i, ?_⟩
    simp only [fire, hs.here, advance, hc, hp, hs.finish]
  | fail e =>
    intro s i n pend v v' hs _ _ _ hp hr
    exact absurd hr (by simp [run])
  | lock l k ih =>
    intro s i n pend v v' hs hc hpend ht hp hr
    -- nobody else holds a lock, so it is free
    let s₁ : Sys O σ ω κ ε := ⟨s.committed, fun l' => if l' = l then some i else s.locks l',
      s.setSession i (some ⟨op, n, pend, k⟩)⟩
    have hfire : fire apply body s (.next i) = some s₁ := by
      simp only [fire, hs.here, advance, hs.locks l, if_true, s₁]
    have hs₁ : Solo s₁ i ⟨op, n, pend, k⟩ := by
      refine ⟨fun l' => ?_, by simp [s₁, Sys.setSession], fun j hj => ?_⟩
      · by_cases hl : l' = l
        · simp [s₁, hl]
        · simpa [s₁, hl] using hs.locks l'
      · simp [s₁, Sys.setSession, hj, hs.alone j hj]
    exact Relation.ReflTransGen.head ⟨hP hs hc hpend, _, hfire⟩ (ih hs₁ hc hpend ht hp hr)
  | stmt w k ih =>
    intro s i n pend v v' hs hc hpend ht hp hr
    simp only [run] at hr
    cases hw : applyAll apply (w v) v with
    | error e => rw [hw] at hr; exact absurd hr (by simp)
    | ok v₁ =>
      rw [hw] at hr
      -- nothing is committed in between, so the statement sees what it sees alone
      let s₁ : Sys O σ ω κ ε := ⟨s.committed, s.locks,
        s.setSession i (some ⟨op, n + 1, pend ++ w v, k v⟩)⟩
      have hfire : fire apply body s (.next i) = some s₁ := by
        simp only [fire, hs.here, advance, hc, hp, hw, s₁]
      have hs₁ : Solo s₁ i ⟨op, n + 1, pend ++ w v, k v⟩ :=
        ⟨hs.locks, by simp [s₁, Sys.setSession],
          fun j hj => by simp [s₁, Sys.setSession, hj, hs.alone j hj]⟩
      have hpend₁ : ∀ x ∈ pend ++ w v, W x :=
        fun x hx => (List.mem_append.mp hx).elim (hpend x) (ht.1 v x)
      exact Relation.ReflTransGen.head ⟨hP hs hc hpend, _, hfire⟩
        (ih v hs₁ hc hpend₁ (ht.2 v) ((applyAll_append hp).trans hw) hr)

/-- A call alone is one interleaving, in which at most one session is in progress. -/
theorem run_stepsIn {W : ω → Prop} {P : Sys O σ ω κ ε → Prop} {op : O} {c c' : σ} (hidle : P (Sys.idle c))
    (hP : ∀ {s i n pend t}, Solo s i ⟨op, n, pend, t⟩ → s.committed = c → (∀ w ∈ pend, W w) → P s)
    (hbody : AllWrites W (body op)) (h : run apply (body op) c = .ok ((), c')) :
    StepsIn apply body P (Sys.idle c) (Sys.idle c') := by
  let s₁ : Sys O σ ω κ ε := ⟨c, fun _ => none, (Sys.idle c).setSession 0 (some ⟨op, 0, [], body op⟩)⟩
  have hfire : fire apply body (Sys.idle c) (.start 0 op) = some s₁ := rfl
  have hs₁ : Solo s₁ 0 ⟨op, 0, [], body op⟩ :=
    ⟨fun _ => Or.inl rfl, rfl, fun j hj => by simp [s₁, Sys.setSession, hj, Sys.idle]⟩
  exact Relation.ReflTransGen.head ⟨hidle, _, hfire⟩
    (solo_stepsIn hP hs₁ rfl (fun _ hw => absurd hw List.not_mem_nil) hbody rfl h)

/-- Calls one after another are a run in `P`, if each call's own session is. -/
theorem stepsIn_of_calls_where {W : O → ω → Prop} {P : Sys O σ ω κ ε → Prop} {Q : O → σ → Prop}
    (hidle : ∀ c, P (Sys.idle c))
    (hP : ∀ {s i op n pend t}, Q op s.committed → Solo s i ⟨op, n, pend, t⟩ → (∀ w ∈ pend, W op w) → P s)
    (hbody : ∀ op, AllWrites (W op) (body op)) {c c' : σ} (h : Calls apply body Q c c') :
    StepsIn apply body P (Sys.idle c) (Sys.idle c') := by
  induction h with
  | refl => exact Relation.ReflTransGen.refl
  | tail _ hcall ih =>
    obtain ⟨op, hQ, hrun⟩ := hcall
    refine ih.trans (run_stepsIn (hidle _) (fun hs hc hpend => ?_) (hbody op) hrun)
    exact hP (hc ▸ hQ) hs hpend

/-- **Calls are interleavings**: what one call after another reaches is reached by a run in which at most
    one session is in progress at a time. -/
theorem stepsIn_of_calls {P : Sys O σ ω κ ε → Prop} (hidle : ∀ c, P (Sys.idle c))
    (hP : ∀ {s i t}, Solo s i t → P s) {Q : O → σ → Prop} {c c' : σ} (h : Calls apply body Q c c') :
    StepsIn apply body P (Sys.idle c) (Sys.idle c') :=
  stepsIn_of_calls_where (W := fun _ _ => True) hidle (fun _ hs _ => hP hs) (fun _ => allWrites_true _) h

/-- Calls whose operations all satisfy `ok`, one after another, are a run of such operations. -/
theorem stepsIn_ops_of_calls {ok : O → Prop} {Q : O → σ → Prop} {c c' : σ} (hQ : ∀ op c, Q op c → ok op)
    (h : Calls apply body Q c c') : StepsIn apply body (OpsIn ok) (Sys.idle c) (Sys.idle c') := by
  refine stepsIn_of_calls_where (W := fun _ _ => True) (fun _ i t ht => absurd ht (by simp [Sys.idle]))
    (fun {_ i _ _ _ _} hop hs _ j t ht => ?_) (fun _ => allWrites_true _) h
  by_cases hj : j = i
  · rw [hj, hs.here] at ht
    rw [← Option.some.inj ht]
    exact hQ _ _ hop
  · exact absurd ((hs.alone j hj).symm.trans ht) (by simp)

/-- A list of calls that all satisfy `ok`, one after another, is a run of such operations. -/
theorem stepsIn_of_runAll {ok : O → Prop} {ops : List O} {c c' : σ} (hok : ∀ op ∈ ops, ok op)
    (h : runAll apply body (fun _ _ => true) c ops = some c') :
    StepsIn apply body (OpsIn ok) (Sys.idle c) (Sys.idle c') :=
  stepsIn_ops_of_calls (fun _ _ hop => hop.2) (calls_of_runAll_where hok h)

end Interleaving

/-! ## Rely/guarantee -/

/-- An invariant of the committed state together with what sessions may assume of each other. `rely op n
    held` is what may happen to the committed state while a session of `op` has run `n` statements and
    holds the locks `held`; `compat` is what a run promises about any two sessions in progress. -/
structure Protocol (O σ κ : Type) where
  good : σ → Prop
  rely : O → Nat → List κ → σ → σ → Prop
  compat : O → Nat → O → Nat → Prop
  rely_refl : ∀ op n held c, rely op n held c c
  rely_trans : ∀ op n held c₁ c₂ c₃,
    rely op n held c₁ c₂ → rely op n held c₂ c₃ → rely op n held c₁ c₃

namespace Protocol

variable (π : Protocol O σ κ) (apply : ω → σ → Except ε σ)

/-- A commit that every session which can be in progress beside it tolerates. -/
def Guar (op : O) (n : Nat) (held : List κ) (c c' : σ) : Prop :=
  ∀ op' n' held', held.Disjoint held' → π.compat op n op' n' → π.rely op' n' held' c c'

/-- The condition under which a body, whatever the others do meanwhile, ends in `Q`. -/
def Wp (op : O) : Txn σ ω κ ε α → (α → Nat → List κ → List ω → σ → Prop) →
    Nat → List κ → List ω → σ → Prop
  | .ret a, Q, n, held, pend, c => Q a n held pend c
  | .fail _, _, _, _, _, _ => True
  | .lock l k, Q, n, held, pend, c =>
      ∀ c', π.rely op n held c c' → π.good c' → Wp op k Q n (l :: held) pend c'
  | .stmt w k, Q, n, held, pend, c =>
      ∀ c' v v', π.rely op n held c c' → π.good c' → applyAll apply pend c' = .ok v →
        applyAll apply (w v) v = .ok v' → Wp op (k v) Q (n + 1) held (pend ++ w v) c'

/-- The end of a body: its commit keeps the invariant and every other session's assumptions. -/
def CommitOk (op : O) (_ : Unit) (n : Nat) (held : List κ) (pend : List ω) (c : σ) : Prop :=
  ∀ c' c'', π.rely op n held c c' → π.good c' → applyAll apply pend c' = .ok c'' →
    π.good c'' ∧ π.Guar op n held c' c''

variable {π apply} {op : O} {n : Nat} {held : List κ} {pend : List ω} {c : σ}

/-- A postcondition may be weakened. -/
theorem wp_mono {t : Txn σ ω κ ε α} {Q Q' : α → Nat → List κ → List ω → σ → Prop}
    (hQ : ∀ a n held pend c, Q a n held pend c → Q' a n held pend c)
    (h : π.Wp apply op t Q n held pend c) : π.Wp apply op t Q' n held pend c := by
  induction t generalizing n held pend c with
  | ret a => exact hQ _ _ _ _ _ h
  | fail e => trivial
  | lock l k ih => exact fun c' hr hg => ih (h c' hr hg)
  | stmt w k ih => exact fun c' v v' hr hg hv hw => ih v (h c' v v' hr hg hv hw)

/-- A transaction in two parts: the first part must establish what the second one needs. -/
theorem wp_bind {t : Txn σ ω κ ε α} {f : α → Txn σ ω κ ε β}
    {Q : β → Nat → List κ → List ω → σ → Prop} :
    π.Wp apply op (t >>= f) Q n held pend c ↔
      π.Wp apply op t (fun a n held pend c => π.Wp apply op (f a) Q n held pend c) n held pend c := by
  induction t generalizing n held pend c with
  | ret a => exact Iff.rfl
  | fail e => exact Iff.rfl
  | lock l k ih => exact forall_congr' fun c' => imp_congr_right fun _ => imp_congr_right fun _ => ih
  | stmt w k ih =>
    exact forall_congr' fun c' => forall_congr' fun v => forall_congr' fun v' =>
      imp_congr_right fun _ => imp_congr_right fun _ => imp_congr_right fun _ =>
        imp_congr_right fun _ => ih v

/-- A read gives what it sees in some state that the others have left by then. -/
theorem wp_read {f : σ → α} {Q : α → Nat → List κ → List ω → σ → Prop}
    (hQ : ∀ c' v, π.rely op n held c c' → π.good c' → applyAll apply pend c' = .ok v →
      Q (f v) (n + 1) held pend c') : π.Wp apply op (read f : Txn σ ω κ ε α) Q n held pend c := by
  intro c' v v' hr hg hv _
  rw [List.append_nil]
  exact hQ c' v hr hg hv

/-- A statement that writes and reads back sees such a state, with its own write added. -/
theorem wp_exec {w : ω} {f : σ → α} {Q : α → Nat → List κ → List ω → σ → Prop}
    (hQ : ∀ c' v, π.rely op n held c c' → π.good c' → applyAll apply pend c' = .ok v →
      Q (f v) (n + 1) held (pend ++ [w]) c') : π.Wp apply op (exec w f : Txn σ ω κ ε α) Q n held pend c :=
  fun c' v _ hr hg hv _ => hQ c' v hr hg hv

/-- A statement that only writes adds to the session's writes. -/
theorem wp_write {w : ω} {Q : Unit → Nat → List κ → List ω → σ → Prop}
    (hQ : ∀ c', π.rely op n held c c' → π.good c' → Q () (n + 1) held (pend ++ [w]) c') :
    π.Wp apply op (write w : Txn σ ω κ ε Unit) Q n held pend c :=
  wp_exec fun c' _ hr hg _ => hQ c' hr hg

/-- A lock that was taken is held. -/
theorem wp_acquire {l : κ} {Q : Unit → Nat → List κ → List ω → σ → Prop}
    (hQ : ∀ c', π.rely op n held c c' → π.good c' → Q () n (l :: held) pend c') :
    π.Wp apply op (acquire l : Txn σ ω κ ε Unit) Q n held pend c :=
  fun c' hr hg => hQ c' hr hg

/-- A series of statements, with a condition `I` that the others keep. -/
theorem wp_writes {ws : List ω} {Q : Unit → Nat → List κ → List ω → σ → Prop} {I : Nat → σ → Prop}
    (hstep : ∀ n c c', I n c → π.rely op n held c c' → π.good c' → I (n + 1) c') (h : I n c)
    (hQ : ∀ n' c', I n' c' → Q () n' held (pend ++ ws) c') :
    π.Wp apply op (writes ws : Txn σ ω κ ε Unit) Q n held pend c := by
  induction ws generalizing n pend c with
  | nil =>
    have hnil := hQ n c h
    rw [List.append_nil] at hnil
    exact hnil
  | cons w ws ih =>
    intro c' v v' hr hg _ _
    exact ih (hstep n c c' h hr hg) fun n' c' hI => by simpa using hQ n' c' hI

/-- Waiting for locks, with a condition `I` that the others keep. -/
theorem wp_acquireAll_carry {ls : List κ} {Q : Unit → Nat → List κ → List ω → σ → Prop} {I : σ → Prop}
    (hI : ∀ held c c', I c → π.rely op n held c c' → π.good c' → I c') (h : I c)
    (hQ : ∀ held' c', I c' → Q () n held' pend c') :
    π.Wp apply op (acquireAll ls : Txn σ ω κ ε Unit) Q n held pend c := by
  induction ls generalizing held c with
  | nil => exact hQ held c h
  | cons l ls ih => exact fun c' hr hg => ih (hI _ _ _ h hr hg)

/-- Waiting for locks, when what follows needs only the invariant. -/
theorem wp_acquireAll {ls : List κ} {Q : Unit → Nat → List κ → List ω → σ → Prop} (hg : π.good c)
    (hQ : ∀ held' c', π.good c' → Q () n held' pend c') :
    π.Wp apply op (acquireAll ls : Txn σ ω κ ε Unit) Q n held pend c :=
  wp_acquireAll_carry (I := π.good) (fun _ _ _ _ _ hg' => hg') hg hQ

theorem wp_orFail {e : ε} {o : Option α} {Q : α → Nat → List κ → List ω → σ → Prop}
    (hQ : ∀ a, o = some a → Q a n held pend c) :
    π.Wp apply op (orFail e o : Txn σ ω κ ε α) Q n held pend c := by
  cases o with
  | none => trivial
  | some a => exact hQ a rfl

/-- A body all of whose writes are harmless, to the invariant and to every other session, is correct
    whatever it does. -/
theorem wp_of_allWrites {P : ω → Prop} {t : Txn σ ω κ ε Unit}
    (hP : ∀ w c c', P w → apply w c = .ok c' → π.good c →
      π.good c' ∧ ∀ op' n' held', π.rely op' n' held' c c')
    (hpend : ∀ w ∈ pend, P w) (ht : AllWrites P t) :
    π.Wp apply op t (π.CommitOk apply op) n held pend c := by
  induction t generalizing n held pend c with
  | ret a =>
    intro c₁ c₂ _ hg hc
    have hboth := applyAll_induction
      (P := fun s => π.good s ∧ ∀ op' n' held', π.rely op' n' held' c₁ s)
      (fun w hw s s' hs hgs =>
        have h := hP w s s' (hpend w hw) hs hgs.1
        ⟨h.1, fun _ _ _ => π.rely_trans _ _ _ _ _ _ (hgs.2 _ _ _) (h.2 _ _ _)⟩)
      hc ⟨hg, fun _ _ _ => π.rely_refl _ _ _ _⟩
    exact ⟨hboth.1, fun op' n' held' _ _ => hboth.2 op' n' held'⟩
  | fail e => trivial
  | lock l k ih => exact fun c' _ _ => ih hpend ht
  | stmt w k ih =>
    refine fun c' v v' _ _ _ _ => ih v (fun x hx => ?_) (ht.2 v)
    rcases List.mem_append.mp hx with hx | hx
    · exact hpend x hx
    · exact ht.1 v x hx

variable (π) in
/-- What a session knows at its commit, whatever the others have committed since its last statement. -/
def AtCommit (R : O → Nat → List κ → List ω → σ → Prop) (op : O) (_ : Unit) (n : Nat) (held : List κ)
    (pend : List ω) (c : σ) : Prop :=
  ∀ c', π.rely op n held c c' → π.good c' → R op n held pend c'

variable {R : O → Nat → List κ → List ω → σ → Prop}

/-- A body's condition stays true while the others commit. -/
theorem wp_stable {t : Txn σ ω κ ε Unit} {c' : σ} (hr : π.rely op n held c c')
    (h : π.Wp apply op t (π.AtCommit R op) n held pend c) : π.Wp apply op t (π.AtCommit R op) n held pend c' := by
  cases t with
  | ret a => exact fun c₁ hr' => h c₁ (π.rely_trans _ _ _ _ _ _ hr hr')
  | fail e => trivial
  | lock l k => exact fun c₁ hr' => h c₁ (π.rely_trans _ _ _ _ _ _ hr hr')
  | stmt w k => exact fun c₁ v v' hr' => h c₁ v v' (π.rely_trans _ _ _ _ _ _ hr hr')

/-- Where all writes of a body satisfy `P`, so do those at its commit; and a condition `I` that the others keep
    from the `m`th statement on is carried there. -/
theorem wp_carry {P : ω → Prop} {I : σ → Prop} {m : Nat} {t : Txn σ ω κ ε Unit}
    (hI : ∀ n held c c', m ≤ n → I c → π.rely op n held c c' → π.good c' → I c') (hm : m ≤ n) (h : I c)
    (hpend : ∀ w ∈ pend, P w) (ht : AllWrites P t) :
    π.Wp apply op t (π.AtCommit (fun _ n _ pend c => m ≤ n ∧ (∀ w ∈ pend, P w) ∧ I c) op) n held pend c := by
  induction t generalizing n held pend c with
  | ret a => exact fun c' hr hg => ⟨hm, hpend, hI _ _ _ _ hm h hr hg⟩
  | fail e => trivial
  | lock l k ih => exact fun c' hr hg => ih hm (hI _ _ _ _ hm h hr hg) hpend ht
  | stmt w k ih =>
    refine fun c' v v' hr hg _ _ => ih v (by omega) (hI _ _ _ _ hm h hr hg) (fun x hx => ?_) (ht.2 v)
    exact (List.mem_append.mp hx).elim (hpend x) (ht.1 v x)

/-- A transaction that writes one kind of thing only has nothing else to commit. -/
theorem wp_writes_of_allWrites {P : ω → Prop} {t : Txn σ ω κ ε Unit} (hpend : ∀ w ∈ pend, P w)
    (ht : AllWrites P t) :
    π.Wp apply op t (π.AtCommit (fun _ _ _ pend _ => ∀ w ∈ pend, P w) op) n held pend c :=
  wp_mono (fun _ _ _ _ _ h c' hr hg => (h c' hr hg).2.1)
    (wp_carry (I := fun _ => True) (m := 0) (fun _ _ _ _ _ h _ _ => h) (Nat.zero_le _) trivial hpend ht)

variable (π apply R) in
/-- The state of the general rule: the invariant holds, and every session in progress is on its way to what `R`
    says of its commit, with locks that the lock table records as its own. -/
def InvFor (s : Sys O σ ω κ ε) : Prop :=
  π.good s.committed ∧ ∀ i t, s.sessions i = some t →
    ∃ held : List κ, (∀ l ∈ held, s.locks l = some i) ∧
      π.Wp apply t.op t.rest (π.AtCommit R t.op) t.done held t.pending s.committed

variable (π apply R) in
/-- Any session that commits now keeps the invariant and what every other session relies on. -/
def Commits (s : Sys O σ ω κ ε) : Prop :=
  ∀ i t held c, s.sessions i = some t → t.rest = .ret () → R t.op t.done held t.pending s.committed →
    applyAll apply t.pending s.committed = .ok c →
    π.good c ∧ ∀ j t' held', j ≠ i → s.sessions j = some t' → held.Disjoint held' →
      π.rely t'.op t'.done held' s.committed c

variable (π apply) in
/-- The state of the invariant rule: the invariant holds, and every session in progress satisfies its
    body's condition with locks that the lock table records as its own. -/
def Inv (s : Sys O σ ω κ ε) : Prop :=
  π.good s.committed ∧ ∀ i t, s.sessions i = some t →
    ∃ held : List κ, (∀ l ∈ held, s.locks l = some i) ∧
      π.Wp apply t.op t.rest (π.CommitOk apply t.op) t.done held t.pending s.committed

variable (π) in
/-- Any two sessions in progress are compatible. -/
def Compatible (s : Sys O σ ω κ ε) : Prop :=
  ∀ i j t t', i ≠ j → s.sessions i = some t → s.sessions j = some t' →
    π.compat t.op t.done t'.op t'.done

variable {body : O → Txn σ ω κ ε Unit}

/-- With no session open the invariant is that the committed state is good. -/
theorem inv_idle (hg : π.good c) : π.Inv apply (Sys.idle c : Sys O σ ω κ ε) :=
  ⟨hg, fun _ _ h => absurd h (by simp [Sys.idle])⟩

/-- A session that ends without a commit leaves the others as they were. -/
theorem invFor_finish {s : Sys O σ ω κ ε} {i : Nat} {c' : σ} (hg : π.good c')
    (hothers : ∀ j t, j ≠ i → s.sessions j = some t → ∃ held : List κ,
      (∀ l ∈ held, s.locks l = some j) ∧
        π.Wp apply t.op t.rest (π.AtCommit R t.op) t.done held t.pending c') :
    π.InvFor apply R (s.finish i c') := by
  refine ⟨hg, fun j t hj => ?_⟩
  by_cases hji : j = i
  · simp [Sys.finish, Sys.setSession, hji] at hj
  · simp only [Sys.finish, Sys.setSession, hji, if_false] at hj
    obtain ⟨held, hl, hw⟩ := hothers j t hji hj
    refine ⟨held, fun l hmem => ?_, hw⟩
    have hne : ¬ j = i := hji
    simp [Sys.finish, Sys.release, hl l hmem, hne]

variable [DecidableEq κ]

/-- The rule's step for the next statement of one session. -/
theorem invFor_advance {s s' : Sys O σ ω κ ε} {i : Nat} {t : Session O σ ω κ ε} (hinv : π.InvFor apply R s)
    (hcommits : π.Commits apply R s) (ht : s.sessions i = some t) (h : advance apply s i t = some s') :
    π.InvFor apply R s' := by
  obtain ⟨hg, hses⟩ := hinv
  obtain ⟨held, hl, hwp⟩ := hses i t ht
  obtain ⟨op, n, pend, rest⟩ := t
  cases rest with
  | ret a =>
    simp only [advance] at h
    cases hp : applyAll apply pend s.committed with
    | error e => rw [hp] at h; exact absurd h (by simp)
    | ok c' =>
      rw [hp, Option.some.injEq] at h
      subst h
      obtain ⟨hg', hrely⟩ := hcommits i _ held c' ht rfl (hwp s.committed (π.rely_refl _ _ _ _) hg) hp
      refine invFor_finish hg' fun j t hj htj => ?_
      obtain ⟨held', hl', hwp'⟩ := hses j t htj
      -- two owners of one lock would be one session
      have hdisj : held.Disjoint held' := fun l hm hm' =>
        hj (Option.some.inj ((hl' l hm').symm.trans (hl l hm)))
      exact ⟨held', hl', wp_stable (hrely j t held' hj htj hdisj) hwp'⟩
  | fail e =>
    simp only [advance, Option.some.injEq] at h
    subst h
    exact invFor_finish hg fun j t _ htj => hses j t htj
  | lock l k =>
    simp only [advance] at h
    split at h
    · rename_i hfree
      rw [Option.some.injEq] at h
      subst h
      refine ⟨hg, fun j t htj => ?_⟩
      by_cases hji : j = i
      · simp only [Sys.setSession, hji, if_true, Option.some.injEq] at htj
        subst htj
        refine ⟨l :: held, fun l' hmem => ?_, hwp _ (π.rely_refl _ _ _ _) hg⟩
        by_cases hll : l' = l
        · simp [hll, hji]
        · simpa [hll, hji] using hl l' ((List.mem_cons.mp hmem).resolve_left hll)
      · simp only [Sys.setSession, hji, if_false] at htj
        obtain ⟨held', hl', hwp'⟩ := hses j t htj
        refine ⟨held', fun l' hmem => ?_, hwp'⟩
        have hll : l' ≠ l := by
          rintro rfl
          rcases hfree with hf | hf
          · exact absurd ((hl' l' hmem).symm.trans hf) (by simp)
          · exact hji (Option.some.inj ((hl' l' hmem).symm.trans hf))
        simpa [hll] using hl' l' hmem
    · exact absurd h (by simp)
  | stmt w k =>
    simp only [advance] at h
    cases hp : applyAll apply pend s.committed with
    | error e => rw [hp] at h; exact absurd h (by simp)
    | ok v =>
      rw [hp] at h
      simp only at h
      cases hw : applyAll apply (w v) v with
      | error e => rw [hw] at h; exact absurd h (by simp)
      | ok v' =>
        rw [hw, Option.some.injEq] at h
        subst h
        refine ⟨hg, fun j t htj => ?_⟩
        by_cases hji : j = i
        · simp only [Sys.setSession, hji, if_true, Option.some.injEq] at htj
          subst htj
          exact ⟨held, fun l hm => hji ▸ hl l hm, hwp _ v v' (π.rely_refl _ _ _ _) hg hp hw⟩
        · simp only [Sys.setSession, hji, if_false] at htj
          exact hses j t htj

/-- The rule's step: every event keeps the rule's invariant. -/
theorem invFor_fire {s s' : Sys O σ ω κ ε} {e : Event O}
    (hbody : ∀ op c, π.good c → π.Wp apply op (body op) (π.AtCommit R op) 0 [] [] c)
    (hinv : π.InvFor apply R s) (hcommits : π.Commits apply R s) (h : fire apply body s e = some s') :
    π.InvFor apply R s' := by
  cases e with
  | start i op =>
    simp only [fire] at h
    cases hi : s.sessions i with
    | some t => rw [hi] at h; exact absurd h (by simp)
    | none =>
      rw [hi, Option.some.injEq] at h
      subst h
      refine ⟨hinv.1, fun j t htj => ?_⟩
      by_cases hji : j = i
      · simp only [Sys.setSession, hji, if_true, Option.some.injEq] at htj
        subst htj
        exact ⟨[], fun l hm => absurd hm (by simp), hbody op _ hinv.1⟩
      · simp only [Sys.setSession, hji, if_false] at htj
        exact hinv.2 j t htj
  | next i =>
    simp only [fire] at h
    cases hi : s.sessions i with
    | none => rw [hi] at h; exact absurd h (by simp)
    | some t => rw [hi] at h; exact invFor_advance hinv hcommits hi h
  | rollback i =>
    simp only [fire, Option.some.injEq] at h
    subst h
    exact invFor_finish hinv.1 fun j t _ htj => hinv.2 j t htj

/-- **The general rule.** Let every body lead to what `R` says of its commit. If `P` makes every commit keep the
    invariant and what the other sessions rely on, then the invariant holds of every committed state of every
    run all of whose steps start in `P`. -/
theorem good_of_steps_where {P : Sys O σ ω κ ε → Prop} {s : Sys O σ ω κ ε}
    (hbody : ∀ op c, π.good c → π.Wp apply op (body op) (π.AtCommit R op) 0 [] [] c)
    (hcommits : ∀ s, P s → π.good s.committed → π.Commits apply R s) (hc : π.good c)
    (h : StepsIn apply body P (Sys.idle c) s) : π.good s.committed := by
  have hinv : π.InvFor apply R s := by
    induction h with
    | refl => exact ⟨hc, fun _ _ h => absurd h (by simp [Sys.idle])⟩
    | tail _ hstep ih =>
      obtain ⟨hP, e, he⟩ := hstep
      exact invFor_fire hbody ih (hcommits _ hP ih.1) he
  exact hinv.1

/-- What the rule for pairs of sessions asks of a commit. -/
def PairCommit (π : Protocol O σ κ) (apply : ω → σ → Except ε σ) (op : O) (n : Nat) (held : List κ) (pend : List ω)
    (c : σ) : Prop :=
  ∀ c', applyAll apply pend c = .ok c' → π.good c' ∧ π.Guar op n held c c'

omit [DecidableEq κ] in
theorem inv_iff {s : Sys O σ ω κ ε} : π.Inv apply s ↔ π.InvFor apply (PairCommit π apply) s := by
  have hiff : ∀ op (t : Txn σ ω κ ε Unit) n held pend c,
      π.Wp apply op t (π.CommitOk apply op) n held pend c ↔
        π.Wp apply op t (π.AtCommit (PairCommit π apply) op) n held pend c := fun op t n held pend c =>
    ⟨wp_mono fun _ _ _ _ _ h c₁ hr hg c₂ hc => h c₁ c₂ hr hg hc,
      wp_mono fun _ _ _ _ _ h c₁ c₂ hr hg hc => h c₁ hr hg c₂ hc⟩
  simp only [Inv, InvFor, hiff]

/-- The rule's step where any two sessions in progress are compatible. -/
theorem inv_fire {s s' : Sys O σ ω κ ε} {e : Event O}
    (hbody : ∀ op c, π.good c → π.Wp apply op (body op) (π.CommitOk apply op) 0 [] [] c)
    (hinv : π.Inv apply s) (hcompat : π.Compatible s) (h : fire apply body s e = some s') :
    π.Inv apply s' := by
  refine inv_iff.mpr (invFor_fire (fun op c hg => wp_mono ?_ (hbody op c hg)) (inv_iff.mp hinv) ?_ h)
  · exact fun _ _ _ _ _ h c₁ hr hg c₂ hc => h c₁ c₂ hr hg hc
  · intro i t held c ht _ hR hc
    obtain ⟨hg, hguar⟩ := hR c hc
    exact ⟨hg, fun j t' held' hj ht' hdisj => hguar _ _ _ hdisj (hcompat i j t t' (Ne.symm hj) ht ht')⟩

/-- **The invariant rule.** If every operation's body keeps the invariant while others commit, then it
    holds of every committed state of every run whose sessions are compatible. -/
theorem good_of_steps {s : Sys O σ ω κ ε}
    (hbody : ∀ op c, π.good c → π.Wp apply op (body op) (π.CommitOk apply op) 0 [] [] c)
    (hc : π.good c) (h : StepsIn apply body π.Compatible (Sys.idle c) s) : π.good s.committed := by
  have hinv : π.Inv apply s := by
    induction h with
    | refl => exact inv_idle hc
    | tail _ hstep ih =>
      obtain ⟨hcompat, e, he⟩ := hstep
      exact inv_fire hbody ih hcompat he
  exact hinv.1

/-- The rule where no two sessions are incompatible: it covers every run. -/
theorem good_of_all_steps {s : Sys O σ ω κ ε} (hall : ∀ op n op' n', π.compat op n op' n')
    (hbody : ∀ op c, π.good c → π.Wp apply op (body op) (π.CommitOk apply op) 0 [] [] c)
    (hc : π.good c) (h : Steps apply body (Sys.idle c) s) : π.good s.committed :=
  good_of_steps hbody hc (h.lift id fun _ _ hs => ⟨fun _ _ _ _ _ _ _ => hall _ _ _ _, hs.2⟩)

/-- The protocol of an invariant that no session relies on. -/
def alone (good : σ → Prop) : Protocol O σ κ where
  good := good
  rely _ _ _ _ _ := True
  compat _ _ _ _ := True
  rely_refl _ _ _ _ := trivial
  rely_trans _ _ _ _ _ _ _ _ := trivial

/-- **Commits keep the invariant**: where it is enough to look at what a session has written by its commit. -/
theorem good_of_commits {W : O → ω → Prop} {P : Sys O σ ω κ ε → Prop} {I : σ → Prop} {s : Sys O σ ω κ ε}
    (hbody : ∀ op, AllWrites (W op) (body op))
    (hcommit : ∀ s i t c, P s → I s.committed → s.sessions i = some t → t.rest = .ret () →
      (∀ w ∈ t.pending, W t.op w) → applyAll apply t.pending s.committed = .ok c → I c)
    (hc : I c) (h : StepsIn apply body P (Sys.idle c) s) : I s.committed := by
  refine good_of_steps_where (π := alone I) (R := fun op _ _ pend _ => ∀ w ∈ pend, W op w) ?_ ?_ hc h
  · exact fun op _ _ => wp_writes_of_allWrites (fun _ hw => absurd hw List.not_mem_nil) (hbody op)
  · intro s hP hI i t _ c ht hret hws happly
    exact ⟨hcommit s i t c hP hI ht hret hws happly, fun _ _ _ _ _ _ => trivial⟩

end Protocol

end Txn
