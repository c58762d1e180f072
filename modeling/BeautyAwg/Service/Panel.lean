import BeautyAwg.Service.Applier
import BeautyAwg.Store.Correctness.Snapshots

/-!
# `Service.Panel`: requests beside the reconciles

The panel as one system. Transactions of any number of requests commit in any order; beside them one `Reconcile`
at a time, under its mutex, runs the queries of `Snapshot` and then gives the hub its commands. A query or a
command can fail and the request can be cancelled: the reconcile then ends where it is, and the next one begins
on what the hub was left with.

## Contents
- **The system.** `Panel`, `Panel.Step`, `Panel.Runs`.
- **Requests about clients.** `Act.ofClients`; `Panel.inserts`; `Panel.Drawn`: no id is given twice.
- **Computing.** `Panel.next`, in which nothing fails; `runs_of_runAll`.
-/

namespace BeautyAwg
namespace Service

open Netip Awg Store Txn Reads

/-! ## The system -/

/-- The database with the requests in progress and the reconcile's queries, the commands that the reconcile has
    still to give, and the live state of the hub. -/
structure Panel where
  reading : Call
  program : List Task
  live : Live

namespace Panel

/-- What is committed. -/
def db (p : Panel) : Db := p.reading.sys.committed

/-- Every state that was committed so far. -/
def moments (p : Panel) : List Db := p.reading.moments

/-- No request and no reconcile in progress. -/
def start (c : Db) (l : Live) : Panel := ⟨⟨Sys.idle c, [], [], [c]⟩, [], l⟩

end Panel

/-- A statement of a transaction or a query of the reconcile; the reconcile takes its mutex, renders what its
    queries returned, gives its next command, or ends early. -/
inductive Act where
  | move (m : Move (Event Op))
  | lock
  | render
  | command
  | abort

/-- One step of the panel: an event of a store call or a query of the reconcile, the mutex taken, what was read made
    into commands, the next command, or a reconcile that ends early. -/
inductive Panel.Step : Panel → Act → Panel → Prop
  | move {p : Panel} {m : Move (Event Op)} {r : Call}
      (h : p.reading.fire (Txn.fire Store.apply Op.body) Sys.committed m = some r) :
      Step p (.move m) { p with reading := r }
  | lock {p : Panel} (hdone : p.reading.done = []) (htodo : p.reading.todo = []) (hprogram : p.program = []) :
      Step p .lock { p with reading := { p.reading with todo := Query.all } }
  | render {p : Panel} {out : Snapshot} (htodo : p.reading.todo = []) (h : Returned p.reading.done out) :
      Step p .render { p with reading := { p.reading with done := [] }, program := reconcile out }
  | command {p : Panel} {c : List Task × Live} (h : Tasks.Step Task.perform (p.program, p.live) c) :
      Step p .command { p with program := c.1, live := c.2 }
  | abort {p : Panel} :
      Step p .abort { p with reading := { p.reading with done := [], todo := [] }, program := [] }

/-- The runs all of whose steps satisfy `P`. -/
def Panel.Runs (P : Panel → Act → Prop) : Panel → Panel → Prop :=
  Relation.ReflTransGen fun p p' => ∃ a, P p a ∧ p.Step a p'

/-! ## Requests about clients -/

/-- Clients are created, deleted, changed, and given and refused access. -/
def aboutClients : Op → Bool
  | .createClient .. | .deleteClient _ | .updateClient .. | .renameClient .. | .setClientColor .. | .setGrant ..
  | .deleteGrant .. | .setGrantRules .. | .setGrantExit .. => true
  | _ => false

/-- No other request begins. -/
def Act.ofClients : Act → Bool
  | .move (.sys (.start _ op)) => aboutClients op
  | _ => true

/-- The row of a client that the write inserts. -/
def newClient : Write → Option ClientRow
  | .insertClient r => some r
  | _ => none

/-- The clients that the transaction has inserted, when it has come to its end. -/
def inserted (t : Session Op Db Write Lock StoreErr) : List ClientRow :=
  match t.rest with
  | .ret _ => t.pending.filterMap newClient
  | _ => []

namespace Panel

/-- The clients that the step commits. -/
def inserts (p : Panel) : Act → List ClientRow
  | .move (.sys (.next i)) => ((p.reading.sys.sessions i).map inserted).getD []
  | _ => []

/-- `gen_random_uuid` has given a new client no id that it gave before. -/
def Drawn (p : Panel) (a : Act) : Prop := ∀ r ∈ p.inserts a, ∀ db ∈ p.moments, ∀ c ∈ db.clients, c.id ≠ r.id

instance (p : Panel) (a : Act) : Decidable (p.Drawn a) := inferInstanceAs (Decidable (∀ _ ∈ _, _))

/-- The runs of requests about clients whose steps satisfy `P`. -/
def ClientRuns (P : Panel → Act → Prop) : Panel → Panel → Prop :=
  Runs fun p a => a.ofClients = true ∧ p.Drawn a ∧ P p a

end Panel

/-- A device that a finished transaction inserts is among its new rows. -/
theorem mem_inserted {t : Session Op Db Write Lock StoreErr} {r : ClientRow} (hret : t.rest = .ret ())
    (hr : Write.insertClient r ∈ t.pending) : r ∈ inserted t := by
  unfold inserted
  rw [hret]
  exact List.mem_filterMap.mpr ⟨_, hr, rfl⟩

/-! ## Computing -/

namespace Panel

/-- The step in which nothing fails and every query returns its rows in table order. -/
def next (p : Panel) : Act → Option Panel
  | .move m =>
    (p.reading.fire (Txn.fire Store.apply Op.body) Sys.committed m).map fun r => { p with reading := r }
  | .lock =>
    if p.reading.done.isEmpty && p.reading.todo.isEmpty && p.program.isEmpty then
      some { p with reading := { p.reading with todo := Query.all } }
    else none
  | .render =>
    match p.reading.todo, p.reading.done with
    | [], [(.hub, h), (.nodes, n), (.clients, c), (.rules, r), (.grants, g), (.links, l)] =>
      some { p with reading := { p.reading with done := [] }, program := reconcile (snapshotAt h n c r g l) }
    | _, _ => none
  | .command =>
    match p.program with
    | t :: ts =>
      match t.perform false p.live with
      | (l, some new) => some { p with program := new ++ ts, live := l }
      | (l, none) => some { p with program := [], live := l }
    | [] => none
  | .abort => some { p with reading := { p.reading with done := [], todo := [] }, program := [] }

/-- The state after a list of steps, each made where `ok` allows it. -/
def runAll (ok : Panel → Act → Bool) : Panel → List Act → Option Panel
  | p, [] => some p
  | p, a :: acts => if ok p a then (p.next a).bind fun p' => runAll ok p' acts else none

variable {p p' : Panel} {a : Act}

/-- An act that goes through is a step. -/
theorem step_of_next (h : p.next a = some p') : p.Step a p' := by
  cases a with
  | move m =>
    obtain ⟨r, hr, rfl⟩ := Option.map_eq_some_iff.mp h
    exact .move hr
  | lock =>
    obtain ⟨hidle, he⟩ := Option.ite_none_right_eq_some.mp h
    simp only [Bool.and_eq_true, List.isEmpty_iff] at hidle
    obtain rfl := Option.some.inj he
    exact .lock hidle.1.1 hidle.1.2 hidle.2
  | render =>
    simp only [next] at h
    split at h
    · rename_i h' n c r g l htodo hdone
      obtain rfl := Option.some.inj h
      refine .render htodo ?_
      rw [hdone]
      exact returned_snapshotAt h' n c r g l
    · exact absurd h (by simp)
  | command =>
    obtain ⟨reading, program, live⟩ := p
    cases program with
    | nil => exact absurd h (by simp [next])
    | cons t ts =>
      simp only [next] at h
      split at h
      · rename_i l new hperform
        obtain rfl := Option.some.inj h
        exact .command (c := (new ++ ts, l)) (.goOn hperform)
      · rename_i l hperform
        obtain rfl := Option.some.inj h
        exact .command (c := ([], l)) (.stop hperform)
  | abort =>
    obtain rfl := Option.some.inj h
    exact .abort

/-- A list of acts that go through is a run, of any relation that the acts meet. -/
theorem runs_of_runAll {P : Panel → Act → Prop} {ok : Panel → Act → Bool} {acts : List Act}
    (hok : ∀ p a, ok p a = true → P p a) (h : p.runAll ok acts = some p') : Runs P p p' := by
  induction acts generalizing p with
  | nil =>
    obtain rfl := Option.some.inj h
    exact Relation.ReflTransGen.refl
  | cons a acts ih =>
    obtain ⟨ha, hbind⟩ := Option.ite_none_right_eq_some.mp h
    obtain ⟨p₁, hp₁, hrest⟩ := Option.bind_eq_some_iff.mp hbind
    exact Relation.ReflTransGen.head ⟨a, hok p a ha, step_of_next hp₁⟩ (ih hrest)

end Panel

end Service
end BeautyAwg
