import BeautyAwg.Store.Migrate

/-!
# `Store.Correctness.Migrate`: migrations apply once and in order

Whatever is cut off or fails, the recorded versions are the first files in name order and the schema is theirs, each
applied once: `migrate_prefix`. From any such point a run that nothing disturbs applies the rest:
`migrate_completes`.

## Contents
- **Positions.** `drop_cases`: where a name stands among the files.
- **The invariant.** `Ctl.At`, `Migration.Applied`, kept by every event.
- **Runs.** `migrate_prefix`, `migrate_completes`.
-/

namespace BeautyAwg
namespace Store

/-! ## Positions -/

section Positions

variable {α : Type} {l rest : List α} {a : α} {j k : Nat}

theorem drop_succ_of_drop (h : l.drop j = a :: rest) : l.drop (j + 1) = rest := by
  rw [← List.drop_drop, h, List.drop_succ_cons, List.drop_zero]

theorem take_succ_of_drop (h : l.drop j = a :: rest) : l.take (j + 1) = l.take j ++ [a] := by
  rw [List.take_add, h, List.take_succ_cons, List.take_zero]

theorem lt_length_of_drop (h : l.drop j = a :: rest) : j < l.length := by
  by_contra hle
  rw [List.drop_eq_nil_of_le (Nat.not_lt.mp hle)] at h
  cases h

/-- In a list without repeats, what stands at `j` is among the first `k` only if `j` is below `k`. -/
theorem mem_take_iff_of_drop (hl : l.Nodup) (h : l.drop j = a :: rest) : a ∈ l.take k ↔ j < k := by
  have hj : a ∉ l.take j := fun hmem =>
    List.disjoint_take_drop hl (Nat.le_refl j) hmem (h ▸ List.mem_cons_self)
  constructor
  · intro hmem
    by_contra hle
    exact hj (List.take_subset_take_left l (Nat.not_lt.mp hle) hmem)
  · intro hlt
    have hmem : a ∈ l.take (j + 1) := by
      rw [take_succ_of_drop h]
      exact List.mem_append_right _ List.mem_cons_self
    exact List.take_subset_take_left l hlt hmem

end Positions

/-! ## The invariant -/

variable {σ : Type} {m : MigrationFS} {sql : String → σ → Option σ} {init : σ} {s s' : Migration σ} {k : Nat}
  {e : MigrateEvent}

/-- What a run that stands at a statement knows, where `k` files are applied to `schema`. -/
def Ctl.At (m : MigrationFS) (sql : String → σ → Option σ) (k : Nat) (schema : σ) : Ctl σ → Prop
  | .ended (some (.ok ())) => k = m.names.length
  | .ended _ | .create => True
  | .check rest => ∃ j ≤ k, m.names.drop j = rest
  | .read name rest => m.names.drop k = name :: rest
  | .exec name body rest => m.names.drop k = name :: rest ∧ m.readFile name = some body
  | .insert name rest work | .commit name rest work =>
    m.names.drop k = name :: rest ∧ ∃ body, m.readFile name = some body ∧ sql body schema = some work

/-- The first `k` files are recorded, and the schema is theirs. -/
structure Migration.Applied (m : MigrationFS) (sql : String → σ → Option σ) (init : σ) (s : Migration σ) (k : Nat) :
    Prop where
  le : k ≤ m.names.length
  recorded : s.recorded = m.names.take k
  schema : m.replay sql init s.recorded = some s.schema
  ctl : s.ctl.At m sql k s.schema

namespace Migration

theorem applied_fresh : (fresh init).Applied m sql init 0 := ⟨Nat.zero_le _, rfl, rfl, trivial⟩

/-- A change of nothing but the statement that comes next. -/
theorem Applied.move (h : s.Applied m sql init k) {c : Ctl σ} (hc : c.At m sql k s.schema) :
    { s with ctl := c }.Applied m sql init k :=
  ⟨h.le, h.recorded, h.schema, hc⟩

theorem Applied.advance (h : s.Applied m sql init k) (hs : s.advance m sql = some s') :
    ∃ k', s'.Applied m sql init k' := by
  have hctl := h.ctl
  unfold Migration.advance at hs
  split at hs
  · cases hs
  · -- the table exists from here on, and lists what it listed
    obtain rfl := Option.some.inj hs
    exact ⟨k, h.le, h.recorded, h.schema, 0, Nat.zero_le k, rfl⟩
  · -- the end of the loop: every file is behind it
    rename_i hcheck
    obtain rfl := Option.some.inj hs
    rw [hcheck] at hctl
    obtain ⟨j, hj, hdrop⟩ := hctl
    exact ⟨k, h.move (Nat.le_antisymm h.le ((List.drop_eq_nil_iff.mp hdrop).trans hj))⟩
  · rename_i name rest hcheck
    rw [hcheck] at hctl
    obtain ⟨j, hj, hdrop⟩ := hctl
    split at hs
    · cases hs
    · rename_i versions hversions
      obtain rfl := Option.some.inj hs
      have hrec : versions = m.names.take k := by rw [← h.recorded, Migration.recorded, hversions, Option.getD_some]
      refine ⟨k, h.move ?_⟩
      split
      · rename_i hmem
        have hlt : j < k := (mem_take_iff_of_drop m.names_nodup hdrop).mp (hrec ▸ hmem)
        exact ⟨j + 1, hlt, drop_succ_of_drop hdrop⟩
      · rename_i hnot
        have hge : k ≤ j := Nat.not_lt.mp fun hlt =>
          hnot (hrec ▸ (mem_take_iff_of_drop m.names_nodup hdrop).mpr hlt)
        exact Nat.le_antisymm hj hge ▸ hdrop
  · rename_i name rest hread
    rw [hread] at hctl
    split at hs
    · cases hs
    · rename_i body hbody
      obtain rfl := Option.some.inj hs
      exact ⟨k, h.move ⟨hctl, hbody⟩⟩
  · rename_i name body rest hexec
    rw [hexec] at hctl
    split at hs
    · cases hs
    · rename_i work hwork
      obtain rfl := Option.some.inj hs
      exact ⟨k, h.move ⟨hctl.1, body, hctl.2, hwork⟩⟩
  · rename_i name rest work hinsert
    rw [hinsert] at hctl
    split at hs
    · cases hs
    · obtain rfl := Option.some.inj hs
      exact ⟨k, h.move hctl⟩
  · -- the commit moves the schema and the versions together
    rename_i name rest work hcommit
    rw [hcommit] at hctl
    obtain ⟨hdrop, body, hbody, hwork⟩ := hctl
    obtain rfl := Option.some.inj hs
    have hrec : (⟨work, some (s.recorded ++ [name]), .check rest⟩ : Migration σ).recorded = m.names.take (k + 1) := by
      rw [take_succ_of_drop hdrop, ← h.recorded]
      rfl
    refine ⟨k + 1, lt_length_of_drop hdrop, hrec, ?_, k + 1, Nat.le_refl _, drop_succ_of_drop hdrop⟩
    exact (MigrationFS.replay_append h.schema hbody).trans hwork

theorem Applied.fire (h : s.Applied m sql init k) (hs : s.fire m sql e = some s') :
    ∃ k', s'.Applied m sql init k' := by
  cases e with
  | start =>
    rw [Migration.fire] at hs
    split at hs
    · obtain rfl := Option.some.inj hs
      exact ⟨k, h.move trivial⟩
    · cases hs
  | step => exact h.advance hs
  | fail err =>
    obtain ⟨result, hresult, rfl⟩ := Option.map_eq_some_iff.mp hs
    obtain ⟨text, rfl⟩ : ∃ text, result = .error text := by
      cases hctl : s.ctl <;> rw [hctl] at hresult <;> simp only [Ctl.failed, Option.some.injEq, reduceCtorEq] at hresult
      all_goals exact ⟨_, hresult.symm⟩
    exact ⟨k, h.move trivial⟩
  | cut =>
    obtain rfl := Option.some.inj hs
    exact ⟨k, h.move trivial⟩

theorem Applied.fireAll {es : List MigrateEvent} (h : s.Applied m sql init k) (hs : s.fireAll m sql es = some s') :
    ∃ k', s'.Applied m sql init k' := by
  induction es generalizing s k with
  | nil =>
    obtain rfl := Option.some.inj hs
    exact ⟨k, h⟩
  | cons e es ih =>
    obtain ⟨s₁, hfire, hrest⟩ := Option.bind_eq_some_iff.mp hs
    obtain ⟨k₁, h₁⟩ := h.fire hfire
    exact ih h₁ hrest

end Migration

/-! ## Runs -/

/-- **Migrations apply once and in order**: after any runs, cut off or failed anywhere, the recorded versions are the
    first files in name order, the schema is what these files make of the empty one, each applied once, and a run
    that returned without an error has applied them all. -/
theorem migrate_prefix {es : List MigrateEvent} (h : (Migration.fresh init).fireAll m sql es = some s) :
    m.names.Pairwise (· < ·) ∧ s.recorded <+: m.names ∧ m.replay sql init s.recorded = some s.schema ∧
      s.recorded.Nodup ∧ (s.ctl = .ended (some (.ok ())) → s.recorded = m.names) := by
  obtain ⟨k, hk⟩ := Migration.applied_fresh.fireAll h
  refine ⟨m.names_sorted, ?_, hk.schema, ?_, fun hret => ?_⟩
  · rw [hk.recorded]
    exact List.take_prefix k m.names
  · rw [hk.recorded]
    exact m.names_nodup.sublist (List.take_sublist k m.names)
  · have hctl := hk.ctl
    rw [hret] at hctl
    rw [hk.recorded, hctl, List.take_length]

/-- Two files and a text that is none. -/
def demoFS : MigrationFS where
  entries := [("0002_b.sql", "b"), ("0001_a.sql", "a"), ("README", "")]
  nodup := by decide

/-- A run cut off inside the second transaction, and one that finds the first file recorded. -/
def demoRuns : List MigrateEvent :=
  [.start] ++ List.replicate 9 .step ++ [.cut, .start] ++ List.replicate 8 .step

/-- The first run is cut off before its commit, and the second does the rest. -/
theorem migrate_prefix_cut : ∃ s,
    (Migration.fresh []).fireAll demoFS (fun body done => some (done ++ [body])) demoRuns = some s ∧
      s.recorded = ["0001_a.sql", "0002_b.sql"] := by
  obtain ⟨s, hs, hret⟩ : ∃ s, (Migration.fresh []).fireAll demoFS (fun body done => some (done ++ [body])) demoRuns =
      some s ∧ s.ctl = .ended (some (.ok ())) := ⟨_, rfl, rfl⟩
  obtain ⟨-, -, -, -, hall⟩ := migrate_prefix hs
  exact ⟨s, hs, hall hret⟩

/-! ## Completion -/

/-- A stretch of statements that all succeed. -/
def Undisturbed (m : MigrationFS) (sql : String → σ → Option σ) (s s' : Migration σ) : Prop :=
  ∃ n, s.fireAll m sql (List.replicate n .step) = some s'

theorem Undisturbed.step {s₁ : Migration σ} (hs : s.advance m sql = some s₁) (h : Undisturbed m sql s₁ s') :
    Undisturbed m sql s s' := by
  obtain ⟨n, hn⟩ := h
  refine ⟨n + 1, ?_⟩
  rw [List.replicate_succ, Migration.fireAll, Migration.fire, hs]
  exact hn

/-- The next file's script runs, where all of them do in order. -/
theorem exists_work (hall : (m.replay sql init m.names).isSome) (h : s.Applied m sql init k) {name body : String}
    {rest : List String} (hdrop : m.names.drop k = name :: rest) (hbody : m.readFile name = some body) :
    ∃ work, sql body s.schema = some work := by
  rw [← List.take_append_drop (k + 1) m.names, take_succ_of_drop hdrop, ← h.recorded, MigrationFS.replay,
    List.foldlM_append, ← MigrationFS.replay, MigrationFS.replay_append h.schema hbody] at hall
  cases hwork : sql body s.schema with
  | none => simp [hwork] at hall
  | some work => exact ⟨work, rfl⟩

theorem completes_check (hall : (m.replay sql init m.names).isSome) {rest versions : List String}
    (h : s.Applied m sql init k) (hversions : s.versions = some versions) (hctl : s.ctl = .check rest) :
    ∃ s', Undisturbed m sql s s' ∧ s'.ctl = .ended (some (.ok ())) := by
  induction rest generalizing s k versions with
  | nil =>
    refine ⟨{ s with ctl := .ended (some (.ok ())) }, ⟨1, ?_⟩, rfl⟩
    rw [List.replicate_one, Migration.fireAll, Migration.fire, Migration.advance, hctl]
    rfl
  | cons name rest ih =>
    have hcheck : s.advance m sql =
        some { s with ctl := if name ∈ versions then .check rest else .read name rest } := by
      rw [Migration.advance, hctl]
      simp only [hversions]
    by_cases hmem : name ∈ versions
    · -- recorded by an earlier run
      rw [if_pos hmem] at hcheck
      obtain ⟨k₁, h₁⟩ := h.advance hcheck
      obtain ⟨s', hs', hret⟩ := ih h₁ hversions rfl
      exact ⟨s', hs'.step hcheck, hret⟩
    · rw [if_neg hmem] at hcheck
      obtain ⟨k₁, h₁⟩ := h.advance hcheck
      have hdrop : m.names.drop k₁ = name :: rest := h₁.ctl
      obtain ⟨body, hbody⟩ := MigrationFS.exists_readFile (List.mem_of_mem_drop (hdrop ▸ List.mem_cons_self))
      obtain ⟨work, hwork⟩ := exists_work hall h₁ hdrop hbody
      have hread : Migration.advance m sql { s with ctl := .read name rest } =
          some { s with ctl := .exec name body rest } := by simp [Migration.advance, hbody]
      have hexec : Migration.advance m sql { s with ctl := .exec name body rest } =
          some { s with ctl := .insert name rest work } := by simp [Migration.advance, hwork]
      have hinsert : Migration.advance m sql { s with ctl := .insert name rest work } =
          some { s with ctl := .commit name rest work } := by
        simp [Migration.advance, Migration.recorded, hversions, hmem]
      obtain ⟨k₂, h₂⟩ := h₁.advance hread
      obtain ⟨k₃, h₃⟩ := h₂.advance hexec
      obtain ⟨k₄, h₄⟩ := h₃.advance hinsert
      obtain ⟨k₅, h₅⟩ := h₄.advance rfl
      obtain ⟨s', hs', hret⟩ := ih h₅ rfl rfl
      exact ⟨s', ((((hs'.step rfl).step hinsert).step hexec).step hread).step hcheck, hret⟩

/-- **The next run completes** what any earlier ones left, where nothing disturbs it and the scripts run in order. -/
theorem migrate_completes {es : List MigrateEvent} {result : Option (Except String Unit)}
    (hall : (m.replay sql init m.names).isSome) (h : (Migration.fresh init).fireAll m sql es = some s)
    (hended : s.ctl = .ended result) :
    ∃ s' n, s.fireAll m sql (.start :: List.replicate n .step) = some s' ∧ s'.ctl = .ended (some (.ok ())) := by
  obtain ⟨k, hk⟩ := Migration.applied_fresh.fireAll h
  have hstart : s.fire m sql .start = some { s with ctl := .create } := by
    rw [Migration.fire, hended]
  have hcreate : Migration.advance m sql { s with ctl := .create } =
      some ⟨s.schema, some s.recorded, .check m.names⟩ := rfl
  obtain ⟨k₁, h₁⟩ := hk.fire hstart
  obtain ⟨k₂, h₂⟩ := h₁.advance hcreate
  obtain ⟨s', hs', hret⟩ := completes_check hall h₂ rfl rfl
  obtain ⟨n, hn⟩ := hs'.step hcreate
  refine ⟨s', n, ?_, hret⟩
  rw [Migration.fireAll, hstart]
  exact hn

end Store
end BeautyAwg
