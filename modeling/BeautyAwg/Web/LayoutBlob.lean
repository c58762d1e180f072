import BeautyAwg.Lib.JsValue
import BeautyAwg.Web.Layout

/-!
# `Web.LayoutBlob`: the layout's reader as it runs

`parseLayout` of `web/app/lib/groups.ts` with everything that could throw on the way: the checks of `isPosition` and
`isGroup` guard each access. What it builds is plain JSON, without a proof of its shape.
-/

namespace BeautyAwg
namespace Web

open Json JsValue

/-- The `Layout` of the source: an object and an array. -/
structure Blob where
  positions : List (String × Json)
  groups : List Json

namespace Blob

/-- `isPosition`, on whatever is there. -/
def isPosition (v : Value) : Except TypeError Bool :=
  if truthy v = false ∨ typeOf v ≠ .object then .ok false
  else do
    let x ← get v "x"
    if typeOf x ≠ .number then return false
    let y ← get v "y"
    return typeOf y = .number

/-- `isGroup`, on whatever is there. -/
def isGroup (v : Value) : Except TypeError Bool :=
  if truthy v = false ∨ typeOf v ≠ .object then .ok false
  else do
    let id ← get v "id"
    if typeOf id ≠ .string then return false
    let name ← get v "name"
    if typeOf name ≠ .string then return false
    let members ← get v "members"
    if !isArray members then return false
    every members fun m => typeOf (some m) = .string

/-- The body of the loop over the entries. -/
def parseEntry (out : Blob) (entry : String × Json) : Except TypeError Blob :=
  if entry.1 = groupsKey then
    if isArray (some entry.2) then do
      let groups ← filter (some entry.2) fun v => isGroup (some v)
      return { out with groups := groups }
    else .ok out
  else do
    let position ← isPosition (some entry.2)
    return if position then { out with positions := assign out.positions entry.1 entry.2 } else out

/-- `parseLayout`, on whatever the panel returned. -/
def parseLayout (raw : Value) : Except TypeError Blob :=
  if truthy raw = false ∨ typeOf raw ≠ .object then .ok ⟨[], []⟩
  else do
    let es ← JsValue.entries raw
    es.foldlM parseEntry ⟨[], []⟩

end Blob

/-- A layout as plain JSON. -/
def Layout.blob (layout : Layout) : Blob := ⟨spread layout.positions, layout.groups.map Subtype.val⟩

end Web
end BeautyAwg
