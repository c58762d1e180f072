import Mathlib.Data.List.Sort
import Mathlib.Data.String.Basic

/-!
# `Store.Migrate`: the migrations

`Migrate` and `runMigration` (`internal/store/store.go`) as a machine on one database. A run makes one statement
after another; each may succeed or fail, and the process may die before it, or inside it, which leaves what the
statement did undone. What a transaction does is its own until the commit. Runs follow each other.

The schema is any type, and `sql` says what a script does to it.
-/

namespace BeautyAwg
namespace Store

/-- The embedded directory: names and contents. -/
structure MigrationFS where
  entries : List (String × String)
  nodup : (entries.map Prod.fst).Nodup

namespace MigrationFS

variable (m : MigrationFS)

/-- The names that a run goes through. -/
def names : List String :=
  ((m.entries.map Prod.fst).filter fun name => ".sql".toList.isSuffixOf name.toList).insertionSort (· ≤ ·)

/-- What an embedded file holds. -/
def readFile (name : String) : Option String := (m.entries.find? fun e => e.1 == name).map Prod.snd

end MigrationFS

/-- Where a run stands: the statement that comes next. An ended run has returned, or was cut off. -/
inductive Ctl (σ : Type) where
  | ended (result : Option (Except String Unit))
  | create
  | check (rest : List String)
  | read (name : String) (rest : List String)
  | exec (name body : String) (rest : List String)
  | insert (name : String) (rest : List String) (work : σ)
  | commit (name : String) (rest : List String) (work : σ)

/-- The database and the run on it. `versions` is `schema_migrations`, once it is created. -/
structure Migration (σ : Type) where
  schema : σ
  versions : Option (List String)
  ctl : Ctl σ

/-- What can happen: a start begins, its next statement goes through, a statement fails, or the run is cut off. -/
inductive MigrateEvent where
  | start
  | step
  | fail (err : String)
  | cut
  deriving DecidableEq, Repr

variable {σ : Type}

/-- What the run returns when its next statement fails. `runMigration`'s errors name the file. -/
def Ctl.failed (err : String) : Ctl σ → Option (Except String Unit)
  | .ended _ => none
  | .create | .check _ | .read _ _ => some (.error err)
  | .exec name _ _ | .insert name _ _ | .commit name _ _ => some (.error ("migration " ++ name ++ ": " ++ err))

namespace Migration

/-- A database without migrations. -/
def fresh (schema : σ) : Migration σ := ⟨schema, none, .ended none⟩

/-- The versions that the table has. -/
def recorded (s : Migration σ) : List String := s.versions.getD []

section Machine

variable (m : MigrationFS) (sql : String → σ → Option σ)

/-- The next statement succeeds. `none`: it cannot. -/
def advance (s : Migration σ) : Option (Migration σ) :=
  match s.ctl with
  | .ended _ => none
  | .create => some { s with versions := some s.recorded, ctl := .check m.names }
  | .check [] => some { s with ctl := .ended (some (.ok ())) }
  | .check (name :: rest) =>
    match s.versions with
    | none => none
    | some versions => some { s with ctl := if name ∈ versions then .check rest else .read name rest }
  | .read name rest =>
    match m.readFile name with
    | none => none
    | some body => some { s with ctl := .exec name body rest }
  | .exec name body rest =>
    match sql body s.schema with
    | none => none
    | some work => some { s with ctl := .insert name rest work }
  | .insert name rest work => if name ∈ s.recorded then none else some { s with ctl := .commit name rest work }
  | .commit name rest work => some ⟨work, some (s.recorded ++ [name]), .check rest⟩

/-- The next state, if the event can happen now. -/
def fire (s : Migration σ) : MigrateEvent → Option (Migration σ)
  | .start =>
    match s.ctl with
    | .ended _ => some { s with ctl := .create }
    | _ => none
  | .step => s.advance m sql
  | .fail err => (s.ctl.failed err).map fun result => { s with ctl := .ended (some result) }
  | .cut => some { s with ctl := .ended none }

/-- A sequence of runs, cut off anywhere. -/
def fireAll (s : Migration σ) : List MigrateEvent → Option (Migration σ)
  | [] => some s
  | e :: es => (s.fire m sql e).bind fun s' => s'.fireAll es

end Machine

end Migration

/-! ## The files, in order -/

namespace MigrationFS

variable {m : MigrationFS} {name : String}

theorem mem_names : name ∈ m.names ↔ name ∈ m.entries.map Prod.fst ∧ ".sql".toList <:+ name.toList := by
  rw [names, List.mem_insertionSort, List.mem_filter, List.isSuffixOf_iff_suffix]

theorem names_nodup : m.names.Nodup := by
  rw [names, (List.perm_insertionSort _ _).nodup_iff]
  exact m.nodup.filter _

theorem names_sorted : m.names.Pairwise (· < ·) := by
  have hle : m.names.Pairwise (· ≤ ·) := List.pairwise_insertionSort _ _
  exact hle.imp₂ (fun a b hab hne => lt_of_le_of_ne hab hne) m.names_nodup

theorem exists_readFile (h : name ∈ m.names) : ∃ body, m.readFile name = some body := by
  obtain ⟨e, he, rfl⟩ := List.mem_map.mp (mem_names.mp h).1
  rw [readFile]
  cases hfind : m.entries.find? fun e' => e'.1 == e.1 with
  | none => exact absurd (List.find?_eq_none.mp hfind e he) (by simp)
  | some e' => exact ⟨e'.2, rfl⟩

/-- The schema after the files, one after another. -/
def replay (m : MigrationFS) (sql : String → σ → Option σ) (schema : σ) (files : List String) : Option σ :=
  files.foldlM (fun schema name => (m.readFile name).bind fun body => sql body schema) schema

theorem replay_append {sql : String → σ → Option σ} {schema work : σ} {files : List String} {body : String}
    (h : m.replay sql schema files = some work) (hread : m.readFile name = some body) :
    m.replay sql schema (files ++ [name]) = sql body work := by
  rw [replay] at h ⊢
  rw [List.foldlM_append, h]
  simp [hread]

end MigrationFS

end Store
end BeautyAwg
