import Mathlib.Tactic.Common
import BeautyAwg.NodeAgent.Host

/-!
# `NodeAgent.Correctness.Backup`: the file after a failed apply

`writeAndApply` has one backup slot and fills it before it knows whether the new configuration will be tried.
A call that ends before `awg-quick` is run leaves the new configuration in the file, and the next call backs
that one up. `Keeps` is when a call cannot do so; along runs of such calls a failed `up` always returns to the
last configuration that came up (`failed_apply_restores`).

## Contents
- **Outcomes.** `Applied`: one constructor for each way out of a call.
- **One call.** `Keeps`, `keeps_iff`.
- **Runs.** `Quick.logged`, `lastUp`, `Runs`, `failed_apply_restores`; `overwritten_unapplied`.
-/

namespace BeautyAwg
namespace NodeAgent

variable {C R : Type} {q : Quick C R} {f : Faults C} {config : C} {h : Host C R}

/-! ## Outcomes -/

/-- The file is written and `awg-quick` is run. -/
structure Tried (f : Faults C) : Prop where
  mkdir : f.mkdir = false
  write : f.write = none
  lookPath : f.lookPath = false

/-- Whether `up` succeeds, after `down`, with a new configuration. -/
def Quick.comesUp (q : Quick C R) (config : C) (rest : R) : Bool := (q.up config (q.down config rest).1).2

/-- The ways out of `writeAndApply`. -/
inductive Applied (q : Quick C R) (f : Faults C) (config : C) (h : Host C R) : Host C R × Bool → Prop
  | noDir (hdir : f.mkdir = true) : Applied q f config h (⟨h.conf, h.conf.or h.bak, h.rest⟩, false)
  | unwritten {left : Option C} (hdir : f.mkdir = false) (hwrite : f.write = some left) :
    Applied q f config h (⟨left, h.conf.or h.bak, h.rest⟩, false)
  | notFound (hdir : f.mkdir = false) (hwrite : f.write = none) (hpath : f.lookPath = true) :
    Applied q f config h (⟨some config, h.conf.or h.bak, h.rest⟩, false)
  | up (htried : Tried f) (hup : q.comesUp config h.rest = true) :
    Applied q f config h (⟨some config, h.conf.or h.bak, (q.up config (q.down config h.rest).1).1⟩, true)
  | restored {old : C} (htried : Tried f) (hdown : q.comesUp config h.rest = false)
      (hbak : h.conf.or h.bak = some old) :
    Applied q f config h
      (⟨some old, h.conf.or h.bak, (q.up old (q.up config (q.down config h.rest).1).1).1⟩, false)
  | stranded (htried : Tried f) (hdown : q.comesUp config h.rest = false) (hbak : h.conf.or h.bak = none) :
    Applied q f config h (⟨some config, h.conf.or h.bak, (q.up config (q.down config h.rest).1).1⟩, false)

/-- Every way through `writeAndApply` is one of the outcomes listed. -/
theorem writeAndApply_outcome (q : Quick C R) (f : Faults C) (config : C) (h : Host C R) :
    Applied q f config h (writeAndApply q f config h) := by
  unfold writeAndApply
  dsimp only
  -- the ways out in the order of the source: the directory, the file, `awg-quick`, `up`, the backup
  cases hdir : f.mkdir with
  | true => exact .noDir hdir
  | false =>
    cases hwrite : f.write with
    | some left => exact .unwritten hdir hwrite
    | none =>
      cases hpath : f.lookPath with
      | true => exact .notFound hdir hwrite hpath
      | false =>
        have htried : Tried f := ⟨hdir, hwrite, hpath⟩
        cases hup : q.comesUp config h.rest with
        | true =>
          have hq : q.up config (q.down config h.rest).1 = ((q.up config (q.down config h.rest).1).1, true) :=
            Prod.ext rfl hup
          rw [hq]
          exact .up htried hup
        | false =>
          have hq : q.up config (q.down config h.rest).1 = ((q.up config (q.down config h.rest).1).1, false) :=
            Prod.ext rfl hup
          cases hbak : h.conf.or h.bak with
          | some old =>
            have happ := Applied.restored htried hup hbak
            rw [hbak] at happ
            rw [hq]
            exact happ
          | none =>
            have happ := Applied.stranded htried hup hbak
            rw [hbak] at happ
            rw [hq]
            exact happ

/-! ## One call -/

/-- When a call that fails leaves the file as it was: what it writes is in the file already, or `awg-quick` is
    found and either there was a file to go back to or the new one comes up. -/
def Keeps (q : Quick C R) (f : Faults C) (config : C) (h : Host C R) : Prop :=
  f.mkdir = true ∨ f.write = some h.conf ∨
    f.write = none ∧ (h.conf = some config ∨
      f.lookPath = false ∧ (h.conf ≠ none ∨ q.comesUp config h.rest = true))

/-- The condition is exact. -/
theorem keeps_iff : ((writeAndApply q f config h).2 = false → (writeAndApply q f config h).1.conf = h.conf) ↔
    Keeps q f config h := by
  have happ := writeAndApply_outcome q f config h
  generalize writeAndApply q f config h = out at happ
  unfold Keeps
  cases happ with
  | noDir hdir => simp [hdir]
  | unwritten hdir hwrite => simp [hdir, hwrite]
  | notFound hdir hwrite hpath =>
    simp only [hdir, hwrite, hpath]
    simp [eq_comm (a := some config) (b := h.conf)]
  | up htried hup => simp [htried.write, htried.lookPath, hup]
  | @restored old htried hdown hbak =>
    simp only [htried.mkdir, htried.write, htried.lookPath, hdown]
    cases hconf : h.conf with
    | none => simp
    | some c =>
      rw [hconf, Option.some_or] at hbak
      simp [Option.some.inj hbak]
  | stranded htried hdown hbak =>
    simp only [htried.mkdir, htried.write, htried.lookPath, hdown]
    have hconf : h.conf = none := (Option.or_eq_none_iff.mp hbak).1
    simp [hconf]

/-! ## Runs -/

/-- The same commands, with a log of the `up` commands and whether they succeeded. -/
def Quick.logged (q : Quick C R) : Quick C (R × List (C × Bool)) where
  down c s := (((q.down c s.1).1, s.2), (q.down c s.1).2)
  up c s := (((q.up c s.1).1, s.2 ++ [(c, (q.up c s.1).2)]), (q.up c s.1).2)

/-- The last configuration for which `up` succeeded. -/
def lastUp (log : List (C × Bool)) : Option C := ((log.filter Prod.snd).map Prod.fst).getLast?

@[simp] theorem lastUp_succeeded (log : List (C × Bool)) (c : C) : lastUp (log ++ [(c, true)]) = some c := by
  simp [lastUp]

@[simp] theorem lastUp_failed (log : List (C × Bool)) (c : C) : lastUp (log ++ [(c, false)]) = lastUp log := by
  simp [lastUp]

/-- One call after another, each under a condition on its input and the host. -/
inductive Runs (q : Quick C R) (ok : Faults C → C → Host C R → Prop) (start : Host C R) : Host C R → Prop
  | refl : Runs q ok start start
  | call {h : Host C R} (f : Faults C) (config : C) (hruns : Runs q ok start h) (hok : ok f config h) :
    Runs q ok start (writeAndApply q f config h).1

/-- What came up last is in the file. -/
def UpInFile (h : Host C (R × List (C × Bool))) : Prop := ∀ c, lastUp h.rest.2 = some c → h.conf = some c

/-- A call that meets the condition leaves the config that came up last in the file. -/
theorem upInFile_call {h : Host C (R × List (C × Bool))} (hinv : UpInFile h) (hkeeps : Keeps q.logged f config h) :
    UpInFile (writeAndApply q.logged f config h).1 := by
  have hsame := keeps_iff.mpr hkeeps
  have happ := writeAndApply_outcome q.logged f config h
  generalize writeAndApply q.logged f config h = out at hsame happ ⊢
  intro c hc
  -- a call that fails keeps the file, and logs a success only where it brings the old configuration up again
  cases happ with
  | noDir hdir => exact hinv c hc
  | unwritten hdir hwrite =>
    have hconf := hsame rfl
    dsimp only at hconf ⊢
    rw [hconf]
    exact hinv c hc
  | notFound hdir hwrite hpath =>
    have hconf := hsame rfl
    dsimp only at hconf ⊢
    rw [hconf]
    exact hinv c hc
  | up htried hup =>
    dsimp only [Quick.comesUp, Quick.logged] at hup hc
    rw [hup, lastUp_succeeded] at hc
    rw [hc]
  | @restored old htried hdown hbak =>
    have hconf : some old = h.conf := hsame rfl
    dsimp only [Quick.comesUp, Quick.logged] at hdown hc
    rw [hdown] at hc
    cases hagain : (q.up old (q.up config (q.down config h.rest.1).1).1).2 with
    | true =>
      rw [hagain, lastUp_succeeded] at hc
      rw [hc]
    | false =>
      rw [hagain, lastUp_failed, lastUp_failed] at hc
      rw [hconf]
      exact hinv c hc
  | stranded htried hdown hbak =>
    have hconf : some config = h.conf := hsame rfl
    dsimp only [Quick.comesUp, Quick.logged] at hdown hc
    rw [hdown, lastUp_failed] at hc
    rw [hconf]
    exact hinv c hc

/-- So does every run of such calls from a host that nothing was applied on. -/
theorem upInFile_runs {start h : Host C (R × List (C × Bool))} (hfresh : start.rest.2 = [])
    (hruns : Runs q.logged (Keeps q.logged) start h) : UpInFile h := by
  induction hruns with
  | refl =>
    intro c hc
    rw [hfresh] at hc
    exact absurd hc (by simp [lastUp])
  | call f config _ hok ih => exact upInFile_call ih hok

/-- **A failed apply.** It leaves the file as it was exactly when the call keeps it; and after any calls that
    keep the file, a configuration that does not come up gives way to the last one that did. -/
theorem failed_apply_restores (q : Quick C R) :
    (∀ f config h, ((writeAndApply q f config h).2 = false → (writeAndApply q f config h).1.conf = h.conf) ↔
      Keeps q f config h) ∧
    ∀ start h, start.rest.2 = [] → Runs q.logged (Keeps q.logged) start h →
      ∀ f config, Keeps q.logged f config h →
        ((writeAndApply q.logged f config h).2 = false →
          (writeAndApply q.logged f config h).1.conf = h.conf) ∧
        (Tried f → q.logged.comesUp config h.rest = false →
          ∀ c, lastUp h.rest.2 = some c → (writeAndApply q.logged f config h).1.conf = some c) := by
  refine ⟨fun f config h => keeps_iff, fun start h hfresh hruns f config hkeeps => ⟨keeps_iff.mpr hkeeps, ?_⟩⟩
  intro htried hdown c hc
  -- the only way out that does not fail is the one where it comes up
  have hfails : (writeAndApply q.logged f config h).2 = false := by
    have happ := writeAndApply_outcome q.logged f config h
    generalize writeAndApply q.logged f config h = out at happ ⊢
    cases happ with
    | up _ hup => exact absurd (hup.symm.trans hdown) (by decide)
    | _ => rfl
  rw [keeps_iff.mpr hkeeps hfails]
  exact upInFile_runs hfresh hruns c hc

/-- A host on which only one configuration comes up. -/
def onlyUp : Quick String Unit := ⟨fun _ _ => ((), true), fun c _ => ((), c = "first")⟩

/-- The file goes back to what came up. -/
theorem restored_to_first :
    (writeAndApply onlyUp.logged .none "second"
      (writeAndApply onlyUp.logged .none "first" ⟨none, none, (), []⟩).1).1.conf = some "first" := by
  have hfirst : Keeps onlyUp.logged .none "first" ⟨none, none, (), []⟩ :=
    .inr (.inr ⟨rfl, .inr ⟨rfl, .inr (by decide)⟩⟩)
  have hsecond : Keeps onlyUp.logged .none "second"
      (writeAndApply onlyUp.logged .none "first" ⟨none, none, (), []⟩).1 :=
    .inr (.inr ⟨rfl, .inr ⟨rfl, .inl (by decide)⟩⟩)
  exact ((failed_apply_restores onlyUp).2 ⟨none, none, (), []⟩ _ rfl (.call .none "first" .refl hfirst)
    .none "second" hsecond).2 ⟨rfl, rfl, rfl⟩ (by decide) "first" (by decide)

/-- Without `awg-quick` the call fails and the file holds the new configuration; a later `up` that fails then
    goes back to that one, not to the one that came up. -/
theorem overwritten_unapplied :
    let applied := (writeAndApply onlyUp.logged .none "first" ⟨none, none, (), []⟩).1
    let missing := writeAndApply onlyUp.logged ⟨false, none, true⟩ "second" applied
    let retried := writeAndApply onlyUp.logged .none "third" missing.1
    (missing.2 = false ∧ missing.1.conf ≠ applied.conf) ∧
      retried.2 = false ∧ lastUp missing.1.rest.2 = some "first" ∧ retried.1.conf ≠ some "first" := by
  decide

end NodeAgent
end BeautyAwg
