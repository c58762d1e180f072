import BeautyAwg.Release.Checker
import Mathlib.Data.Prod.Lex

/-!
# `Release.Correctness.Newer`: whether an offered update is newer

`Update` compares the cached tag with the node's version as text, for equality alone. What it offers is a file
of the release, after a refresh without an error. It is newer only if the release is: a node that runs more
than the latest release is offered the release, an older build. `update_newer_iff` says when.
-/

namespace BeautyAwg
namespace Release

open Checker

/-! ## Versions -/

/-- Major, minor and patch, in the order of their numbers. -/
abbrev Version := Nat ×ₗ Nat ×ₗ Nat

/-- A number in decimal digits. -/
def parseNumber (ds : List Char) : Option Nat :=
  if ds = [] ∨ ds.any (fun c => !c.isDigit) then none else some (Nat.ofDigitChars 10 ds 0)

/-- A text `vMAJOR.MINOR.PATCH`. -/
def parseVersion (s : String) : Option Version :=
  match s.toList with
  | 'v' :: rest =>
    match rest.splitOn '.' with
    | [major, minor, patch] => do
      let major ← parseNumber major
      let minor ← parseNumber minor
      let patch ← parseNumber patch
      return toLex (major, toLex (minor, patch))
    | _ => none
  | _ => none

example : parseVersion "v1.10.0" = some (toLex (1, toLex (10, 0))) := by decide

/-- A version that parses is neither empty nor `dev`. -/
theorem ne_of_parseVersion {s : String} {v : Version} (h : parseVersion s = some v) : s ≠ "" ∧ s ≠ "dev" := by
  constructor
  · rintro rfl
    cases h
  · rintro rfl
    cases h

/-! ## What an offer promises -/

/-- The release is newer than the version, its refresh went well, and the URL names one of its files. -/
structure Newer (c : Checker) (curVersion : String) (o : Offer) : Prop where
  newer : ∃ v w, parseVersion c.tag = some v ∧ parseVersion curVersion = some w ∧ w < v
  fresh : c.err = none
  file : ∃ file ∈ c.assets, o.url = downloadURL c.tag file

/-- The release has a build for the architecture, is not the node's version, and is not newer either. -/
structure OffersOld (c : Checker) (curVersion arch : String) : Prop where
  differs : c.tag ≠ curVersion
  old : ∀ v w, parseVersion c.tag = some v → parseVersion curVersion = some w → v ≤ w
  fresh : c.err = none
  known : arch ≠ ""
  asset : assetName c.tag arch ∈ c.assets

section Update

variable {c : Checker} {now : Int} {resp : Response} {curVersion arch : String} {v w : Version}

/-- When an update is offered, and where it is downloaded from. -/
theorem available_iff (hv : parseVersion (c.current now resp).tag = some v)
    (hw : parseVersion curVersion = some w) :
    (c.update now resp curVersion arch).2.available = true ↔ (c.current now resp).tag ≠ curVersion ∧
      (c.current now resp).err = none ∧ arch ≠ "" ∧
      assetName (c.current now resp).tag arch ∈ (c.current now resp).assets := by
  obtain ⟨hempty, hdev⟩ := ne_of_parseVersion hw
  have htag := (ne_of_parseVersion hv).1
  unfold update
  split
  · rename_i hno
    exact iff_of_false Bool.false_ne_true fun h => (hno.resolve_left hempty).elim hdev h.2.2.1
  · rename_i harch
    have harch : arch ≠ "" := fun h => harch (.inr (.inr h))
    dsimp only
    split
    · rename_i hno
      refine iff_of_false Bool.false_ne_true fun h => ?_
      rcases hno with herr | hnone | hsame
      · exact herr h.2.1
      · exact htag hnone
      · exact h.1 hsame
    · rename_i hyes
      obtain ⟨herr, -, hdiff⟩ : (c.current now resp).err = none ∧ (c.current now resp).tag ≠ "" ∧
          (c.current now resp).tag ≠ curVersion := by simpa using hyes
      split
      · rename_i hasset
        exact iff_of_false Bool.false_ne_true fun h => hasset h.2.2.2
      · rename_i hasset
        exact iff_of_true rfl ⟨hdiff, herr, harch, not_not.mp hasset⟩

/-- An update that is offered points to the asset of the cached release. -/
theorem url_of_available (h : (c.update now resp curVersion arch).2.available = true) :
    (c.update now resp curVersion arch).2.url =
      downloadURL (c.current now resp).tag (assetName (c.current now resp).tag arch) := by
  unfold update at h ⊢
  split at h
  · cases h
  · dsimp only at h
    split at h
    · cases h
    · split at h
      · cases h
      · rename_i harch hyes hasset
        rw [if_neg harch]
        dsimp only
        rw [if_neg hyes, if_neg hasset]

/-- **An offer is newer**, unless the cached release is an older build for the node's architecture. -/
theorem update_newer_iff (hv : parseVersion (c.current now resp).tag = some v)
    (hw : parseVersion curVersion = some w) :
    ((c.update now resp curVersion arch).2.available = true →
        Newer (c.current now resp) curVersion (c.update now resp curVersion arch).2) ↔
      ¬ OffersOld (c.current now resp) curVersion arch := by
  constructor
  · intro hnewer hold
    have havail := (available_iff hv hw).mpr ⟨hold.differs, hold.fresh, hold.known, hold.asset⟩
    obtain ⟨v', w', hv', hw', hlt⟩ := (hnewer havail).newer
    exact absurd hlt (not_lt.mpr (hold.old v' w' hv' hw'))
  · intro hnot havail
    obtain ⟨hdiff, herr, harch, hasset⟩ := (available_iff hv hw).mp havail
    have hlt : w < v := by
      by_contra hle
      refine hnot ⟨hdiff, fun v' w' hv' hw' => ?_, herr, harch, hasset⟩
      obtain rfl := Option.some.inj (hv.symm.trans hv')
      obtain rfl := Option.some.inj (hw.symm.trans hw')
      exact not_lt.mp hle
    exact ⟨⟨v, w, hv, hw, hlt⟩, herr, _, hasset, url_of_available havail⟩

end Update

/-- A cache filled a moment ago, with the build of one architecture. -/
def demoCache (tag : String) : Checker := ⟨1800000000000, 0, tag, [assetName tag "amd64"], none⟩

/-- 1.10.0 is offered to 1.9.0, and is newer. -/
theorem update_newer_iff_newer :
    Newer (demoCache "v1.10.0") "v1.9.0" ((demoCache "v1.10.0").update 1 (.failed "") "v1.9.0" "amd64").2 := by
  have hv : parseVersion ((demoCache "v1.10.0").current 1 (.failed "")).tag = some (toLex (1, toLex (10, 0))) := by
    decide
  have hw : parseVersion "v1.9.0" = some (toLex (1, toLex (9, 0))) := by decide
  exact (update_newer_iff hv hw).mpr (fun h => absurd (h.old _ _ hv hw) (by decide)) (by decide)

/-- **The defect.** 1.2.3 is offered to 1.3.0. -/
theorem update_older : ((demoCache "v1.2.3").update 1 (.failed "") "v1.3.0" "amd64").2.available = true ∧
    ¬ Newer (demoCache "v1.2.3") "v1.3.0" ((demoCache "v1.2.3").update 1 (.failed "") "v1.3.0" "amd64").2 := by
  refine ⟨by decide, fun h => ?_⟩
  obtain ⟨v, w, hv, hw, hlt⟩ := h.newer
  have hv' : some v = some (toLex (1, toLex (2, 3))) := hv.symm.trans (by decide)
  have hw' : some w = some (toLex (1, toLex (3, 0))) := hw.symm.trans (by decide)
  rw [Option.some.inj hv', Option.some.inj hw'] at hlt
  exact absurd hlt (by decide)

end Release
end BeautyAwg
