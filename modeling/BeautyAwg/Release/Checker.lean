import Mathlib.Tactic.Common

/-!
# `Release.Checker`: the latest release

The cache of the latest release and what the panel offers a node (`internal/release/release.go`). Time is in
nanoseconds. The asset list is a list whose order nothing reads.
-/

namespace BeautyAwg
namespace Release

/-- What the request to the releases API comes back with. `body` is the decoded release: its tag and the names of its
    assets. -/
inductive Response where
  | failed (err : String)
  | answered (code : Nat) (status : String) (body : Except String (String × List String))

/-- What is remembered of the last request: when it was made, and the release or the error. -/
structure Checker where
  ttl : Int
  fetched : Int
  tag : String
  assets : List String
  err : Option String
  deriving DecidableEq, Repr

/-- Where the releases are. -/
def repoSlug : String := "o6ez9na/beauty-awg"

/-- The file for an architecture. -/
def assetName (tag arch : String) : String := "nodeagent-" ++ tag ++ "-linux-" ++ arch

/-- Where a file of a release is downloaded from. -/
def downloadURL (tag file : String) : String :=
  "https://github.com/" ++ repoSlug ++ "/releases/download/" ++ tag ++ "/" ++ file

/-- `NewChecker`. The zero time is long ago. -/
def newChecker : Checker := ⟨30 * 60 * 1000000000, -62135596800 * 1000000000, "", [], none⟩

namespace Checker

variable (c : Checker) (now : Int) (resp : Response)

/-- A failed refresh keeps the release that was cached. -/
def refreshLocked : Checker :=
  match resp with
  | .failed err => { c with fetched := now, err := some err }
  | .answered code status body =>
    if code ≠ 200 then { c with fetched := now, err := some ("github releases/latest: " ++ status) }
    else
      match body with
      | .error err => { c with fetched := now, err := some err }
      | .ok (tag, assets) => { c with fetched := now, tag := tag, assets := assets, err := none }

/-- The cache that `Update` reads. -/
def current : Checker := if c.ttl < now - c.fetched then c.refreshLocked now resp else c

/-- What `Update` returns: `latest`, `url`, `available`. -/
structure Offer where
  latest : String
  url : String
  available : Bool
  deriving DecidableEq, Repr

/-- `Update`, and the cache it leaves. -/
def update (curVersion arch : String) : Checker × Offer :=
  if curVersion = "" ∨ curVersion = "dev" ∨ arch = "" then (c, ⟨"", "", false⟩)
  else
    let c := c.current now resp
    if c.err ≠ none ∨ c.tag = "" ∨ c.tag = curVersion then (c, ⟨c.tag, "", false⟩)
    else if assetName c.tag arch ∉ c.assets then (c, ⟨c.tag, "", false⟩)
    else (c, ⟨c.tag, downloadURL c.tag (assetName c.tag arch), true⟩)

end Checker

end Release
end BeautyAwg
