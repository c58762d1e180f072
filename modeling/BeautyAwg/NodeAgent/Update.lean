import Mathlib.Logic.Relation
import BeautyAwg.Lib.Directory

/-!
# `NodeAgent.Update`: the agent replaces its own program

`applyUpdate` and `selfUpdate` (`cmd/nodeagent`). A request for an update downloads the program to a temporary file
beside the agent's own and renames it into place. Requests run beside each other and beside the poll loop, which
notes the address that the panel named last; each can fail at any point, and the service manager can restart the
agent at any time.

`http.Get` answers with a status and then with a body. A body that breaks off is an error of `io.Copy`, so the copy
ends without one only when the whole body was written.

## Contents
- **Parts.** `Stage`: how far an update is.
- **The system.** `World`, `World.Step`, `World.start`.
-/

namespace BeautyAwg
namespace NodeAgent
namespace Update

open Directory

/-! ## Parts -/

/-- What is in a file. -/
abbrev Bytes := List UInt8

/-- An answer with status 200. -/
structure Download where
  url : String
  body : Bytes
  deriving DecidableEq, Repr

/-- How far an update is; `left` is what is still to be copied, `fd` the open temporary file. -/
inductive Stage where
  | requested (url : String)
  | answered (d : Download)
  | copying (d : Download) (tmp : String) (fd : Nat) (left : Bytes)
  | copied (d : Download) (tmp : String) (fd : Nat)
  | executable (d : Download) (tmp : String) (fd : Nat)
  /-- What is left is the deferred `os.Remove`. -/
  | removing (tmp : String)
  deriving DecidableEq, Repr

/-- The temporary file that the update still has under its name, and the file it has open. -/
def Stage.temp : Stage → Option (String × Nat)
  | copying _ tmp fd _ => some (tmp, fd)
  | copied _ tmp fd => some (tmp, fd)
  | executable _ tmp fd => some (tmp, fd)
  | _ => none

/-- The name that the update may still touch. -/
def Stage.name : Stage → Option String
  | removing tmp => some tmp
  | s => s.temp.map Prod.fst

/-! ## The system -/

/-- The directory of the agent's program, the address an update is offered at (none when it is empty), the updates
    in progress, and the program that runs. The last four fields record what happened: the addresses the panel
    named, the answers with status 200, the names that `os.CreateTemp` gave, and whether no restart has cut an update
    off and no `os.Remove` has failed. -/
structure World where
  dir : Dir UInt8
  updateURL : String
  updates : Nat → Option Stage
  running : Bytes
  named : List String
  served : List Download
  drawn : List String
  tidy : Bool

namespace World

/-- One update's progress. -/
def setStage (w : World) (i : Nat) (s : Option Stage) : World :=
  { w with updates := fun j => if j = i then s else w.updates j }

/-- One step, with the name of the agent's program. -/
inductive Step (exe : String) : World → World → Prop
  | poll {w : World} (url : String) :
      Step exe w { w with updateURL := url, named := url :: w.named }
  | applyUpdate {w : World} {i : Nat} (hfree : w.updates i = none) (hurl : w.updateURL ≠ "") :
      Step exe w (w.setStage i (some (.requested w.updateURL)))
  | get {w : World} {i : Nat} {url : String} (body : Bytes) (hi : w.updates i = some (.requested url)) :
      Step exe w { w.setStage i (some (.answered ⟨url, body⟩)) with served := ⟨url, body⟩ :: w.served }
  | createTemp {w : World} {i : Nat} {d : Download} (tmp : String) (hi : w.updates i = some (.answered d))
      (hfree : w.dir.entries tmp = none) :
      Step exe w { w.setStage i (some (.copying d tmp w.dir.next d.body)) with
        dir := w.dir.create tmp ⟨[], 0o600⟩, drawn := tmp :: w.drawn }
  | copy {w : World} {i : Nat} {d : Download} {tmp : String} {fd : Nat} (chunk left : Bytes)
      (hi : w.updates i = some (.copying d tmp fd (chunk ++ left))) :
      Step exe w { w.setStage i (some (.copying d tmp fd left)) with
        dir := w.dir.modify fd fun f => { f with content := f.content ++ chunk } }
  | copied {w : World} {i : Nat} {d : Download} {tmp : String} {fd : Nat}
      (hi : w.updates i = some (.copying d tmp fd [])) : Step exe w (w.setStage i (some (.copied d tmp fd)))
  | chmod {w : World} {i : Nat} {d : Download} {tmp : String} {fd : Nat}
      (hi : w.updates i = some (.copied d tmp fd)) :
      Step exe w { w.setStage i (some (.executable d tmp fd)) with
        dir := w.dir.modify fd fun f => { f with mode := 0o755 } }
  /-- `os.Rename` takes what is under the name now. -/
  | rename {w : World} {i j : Nat} {d : Download} {tmp : String} {fd : Nat}
      (hi : w.updates i = some (.executable d tmp fd)) (hsrc : w.dir.entries tmp = some j) :
      Step exe w { w.setStage i (some (.removing tmp)) with dir := w.dir.rename tmp exe j hsrc }
  | remove {w : World} {i : Nat} {tmp : String} (hi : w.updates i = some (.removing tmp)) :
      Step exe w { w.setStage i none with dir := w.dir.remove tmp }
  | removeFails {w : World} {i : Nat} {tmp : String} (hi : w.updates i = some (.removing tmp)) :
      Step exe w { w.setStage i none with tidy := false }
  /-- A call fails; the temporary file, if there is one, is removed next. -/
  | fail {w : World} {i : Nat} {s : Stage} (hi : w.updates i = some s) :
      Step exe w (w.setStage i (s.name.map .removing))
  /-- The agent is stopped where it is, and started from its file. -/
  | restart {w : World} {f : File UInt8} (tidy : Bool) (hexe : w.dir.file exe = some f)
      (htidy : tidy = true ↔ w.tidy = true ∧ ∀ i, w.updates i = none) :
      Step exe w { w with updateURL := "", updates := fun _ => none, running := f.content, tidy := tidy }

/-- Any number of steps. -/
def Steps (exe : String) : World → World → Prop := Relation.ReflTransGen (Step exe)

/-- The agent has just been started from its file. -/
def start (dir : Dir UInt8) (program : Bytes) : World := ⟨dir, "", fun _ => none, program, [], [], [], true⟩

end World

end Update
end NodeAgent
end BeautyAwg
