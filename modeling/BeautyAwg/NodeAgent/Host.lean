/-!
# `NodeAgent.Host`: what the node agent does to its host

`writeAndApply` and `teardown` of `cmd/nodeagent`, over the configurations `C` that the file can hold and
the state `R` of the host that `awg-quick` acts on.
-/

namespace BeautyAwg
namespace NodeAgent

/-- The configuration file, its backup, and the rest of the host. -/
structure Host (C R : Type) where
  conf : Option C
  bak : Option C
  rest : R
  deriving DecidableEq, Repr

/-- `awg-quick down` and `awg-quick up` with a file, and whether they succeed. -/
structure Quick (C R : Type) where
  down : C → R → R × Bool
  up : C → R → R × Bool

/-- What can go wrong around `awg-quick`: the directory or the file cannot be written (the file is left as
    `write` says), or there is no `awg-quick`. -/
structure Faults (C : Type) where
  mkdir : Bool
  write : Option (Option C)
  lookPath : Bool

/-- Nothing fails. -/
def Faults.none {C : Type} : Faults C := ⟨false, .none, false⟩

variable {C R : Type}

/-- Install a configuration: back the old file up, write the new one, and take the interface down and up
    with it. If it does not come up the backup is written back and brought up instead. -/
def writeAndApply (q : Quick C R) (f : Faults C) (config : C) (h : Host C R) : Host C R × Bool :=
  let bak := h.conf.or h.bak
  if f.mkdir then (⟨h.conf, bak, h.rest⟩, false)
  else
    match f.write with
    | some left => (⟨left, bak, h.rest⟩, false)
    | none =>
      if f.lookPath then (⟨some config, bak, h.rest⟩, false)
      else
        -- whether `down` succeeds is not looked at
        match q.up config (q.down config h.rest).1, bak with
        | (rest, true), _ => (⟨some config, bak, rest⟩, true)
        | (rest, false), some old => (⟨some old, bak, (q.up old rest).1⟩, false)
        | (rest, false), none => (⟨some config, bak, rest⟩, false)

/-- Bring the interface down and remove the file and its backup. -/
def teardown (q : Quick C R) (h : Host C R) : Host C R where
  conf := none
  bak := none
  rest := h.conf.elim h.rest fun c => (q.down c h.rest).1

end NodeAgent
end BeautyAwg
