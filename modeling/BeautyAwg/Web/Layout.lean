import BeautyAwg.Lib.Json

/-!
# `Web.Layout`: the map's saved layout

The layout blob of `web/app/lib/groups.ts`, which holds the positions of the cards and the device groups,
and the page state of `AccessGraph.tsx` with everything that writes the blob. What is drawn, and the
requests that change access, are left out. `Page.act` is one event of the browser; a React update takes
effect for the code that reads the mirrored refs in a `render` of its own.

## Contents
- **Blob.** `Position`, `Group`, `parseLayout`, `serializeLayout`.
- **Page.** `Page`, its writers, `Action`, `Page.act`.
- **Runs.** `Moment`, `trace`.
-/

namespace BeautyAwg
namespace Web

open Json

/-! ## Blob -/

/-- `isPosition`. -/
def isPosition : Json → Bool
  | obj fields => (fields.lookup "x").any isNum && (fields.lookup "y").any isNum
  | _ => false

/-- `isGroup`. -/
def isGroup : Json → Bool
  | obj fields => (fields.lookup "id").any isStr && (fields.lookup "name").any isStr &&
      (fields.lookup "members").any isStrs
  | _ => false

/-- A JSON value that passes for a position. -/
abbrev Position := { v : Json // isPosition v = true }

/-- A group keeps the fields that this build does not know. -/
abbrev Group := { v : Json // isGroup v = true }

/-- Positions under the keys of their cards. -/
abbrev PosMap := List (String × Position)

/-- The key of the blob that holds the groups. -/
def groupsKey : String := "__groups"

/-- What is saved of a map. -/
structure Layout where
  positions : PosMap
  groups : List Group

/-- The values that pass a check. -/
def keep (check : Json → Bool) (xs : List Json) : List { v : Json // check v = true } :=
  xs.filterMap fun v => if h : check v = true then some ⟨v, h⟩ else none

/-- One entry of the blob. -/
def parseEntry (out : Layout) (entry : String × Json) : Layout :=
  if entry.1 = groupsKey then
    match entry.2 with
    | arr xs => { out with groups := keep isGroup xs }
    | _ => out
  else if h : isPosition entry.2 = true then
    { out with positions := setField out.positions entry.1 ⟨entry.2, h⟩ }
  else out

/-- The layout in a blob; what passes for neither a position nor a group is dropped. -/
def parseLayout (raw : Json) : Layout := raw.entries.foldl parseEntry ⟨[], []⟩

/-- The positions as fields of an object. -/
def spread (positions : PosMap) : List (String × Json) := positions.map fun p => (p.1, p.2.val)

/-- The blob of a layout; without groups the key is left out. -/
def serializeLayout (layout : Layout) : Json :=
  obj (if layout.groups = [] then spread layout.positions
    else setField (spread layout.positions) groupsKey (arr (layout.groups.map Subtype.val)))

/-! ## Groups -/

/-- The fields of an object. -/
def fieldsOf : Json → List (String × Json)
  | obj fields => fields
  | _ => []

/-- The id of a group. -/
def Group.id (g : Group) : String :=
  match (fieldsOf g.val).lookup "id" with
  | some (str s) => s
  | _ => ""

/-- The devices of a group. -/
def Group.members (g : Group) : List String := (((fieldsOf g.val).lookup "members").map strs).getD []

/-- What a change of a group sets: its name, its colour, its size, its members. -/
inductive Patch where
  | name (s : String)
  | color (s : String)
  | size (w h : Rat)
  | members (ms : List String)

/-- The fields that a patch sets. -/
def Patch.fields : Patch → List (String × Json)
  | name s => [("name", str s)]
  | color s => [("color", str s)]
  | size w h => [("w", num w), ("h", num h)]
  | members ms => [("members", arr (ms.map str))]

/-- A field that a change may set: a group stays one. -/
def FieldOk (f : String × Json) : Prop :=
  f.1 ≠ "id" ∧ (f.1 = "name" → f.2.isStr = true) ∧ (f.1 = "members" → f.2.isStrs = true)

theorem Patch.fieldOk {patch : Patch} {f : String × Json} (hf : f ∈ patch.fields) : FieldOk f := by
  have hstrs : ∀ ms : List String, (arr (ms.map str)).isStrs = true := by simp [isStrs, isStr]
  cases patch with
  | name | color =>
    rw [List.mem_singleton.mp hf]
    exact ⟨by simp, fun _ => rfl, by simp⟩
  | size w h =>
    simp only [Patch.fields, List.mem_cons, List.not_mem_nil, or_false] at hf
    rcases hf with rfl | rfl <;> exact ⟨by simp, by simp, by simp⟩
  | members ms =>
    rw [List.mem_singleton.mp hf]
    exact ⟨by simp, by simp, fun _ => hstrs ms⟩

theorem isGroup_setField {fields : List (String × Json)} {f : String × Json} (h : isGroup (obj fields) = true)
    (hf : FieldOk f) : isGroup (obj (setField fields f.1 f.2)) = true := by
  obtain ⟨hid, hname, hmembers⟩ := hf
  simp only [isGroup, Bool.and_eq_true] at h ⊢
  simp only [lookup_setField, if_neg (Ne.symm hid)]
  refine ⟨⟨h.1.1, ?_⟩, ?_⟩
  · split
    · rename_i he
      exact hname he.symm
    · exact h.1.2
  · split
    · rename_i he
      exact hmembers he.symm
    · exact h.2

theorem isGroup_setFields {fs fields : List (String × Json)} (h : isGroup (obj fields) = true)
    (hfs : ∀ f ∈ fs, FieldOk f) : isGroup (obj (fs.foldl (fun g f => setField g f.1 f.2) fields)) = true := by
  induction fs generalizing fields with
  | nil => exact h
  | cons f fs ih =>
    exact ih (isGroup_setField h (hfs f List.mem_cons_self)) fun x hx => hfs x (List.mem_cons_of_mem _ hx)

/-- `{ ...g, ...patch }`. -/
def Group.patch (g : Group) (patch : Patch) : Group where
  val := obj (patch.fields.foldl (fun fields f => setField fields f.1 f.2) (fieldsOf g.val))
  property := by
    obtain ⟨v, hv⟩ := g
    cases v with
    | obj fields => exact isGroup_setFields hv fun f => Patch.fieldOk
    | null | bool | num | str | arr => exact absurd hv (by simp [isGroup])

/-- A group without members. -/
def newGroup (id name : String) : Group := ⟨obj [("id", str id), ("name", str name), ("members", arr [])], rfl⟩

/-! ## Page -/

/-- A card on the canvas. -/
inductive Card where
  | client (id : String)
  | node (id : String)
  | group (id : String)
  deriving DecidableEq, Repr

/-- The key of a card's position. -/
def Card.key : Card → String
  | client id => "c:" ++ id
  | node id => "n:" ++ id
  | group id => "g:" ++ id

/-- A place on the canvas. -/
structure XY where
  x : Rat
  y : Rat
  deriving DecidableEq, Repr

/-- The place as a position. -/
def XY.position (a : XY) : Position := ⟨obj [("x", num a.x), ("y", num a.y)], rfl⟩

/-- `Math.round`. -/
def round (x : Rat) : Rat := (x + 1 / 2).floor

/-- The place in whole pixels. -/
def XY.round (a : XY) : XY := ⟨Web.round a.x, Web.round a.y⟩

/-- A number among the fields, or zero. -/
def numField (v : Json) (k : String) : Rat :=
  match (fieldsOf v).lookup k with
  | some (num x) => x
  | _ => 0

/-- The seat of a member in its group's frame. -/
def memberSeat (index : Nat) : XY := ⟨12, 40 + index * 56⟩

/-- The page: `layout.current`, the groups of its state and the ref that mirrors them, whether the saved
    layout was answered and drawn, whether a save is due, and where the canvas menu was opened. -/
structure Page where
  positions : PosMap
  groups : List Group
  groupsRef : List Group
  answered : Bool
  ready : Bool
  saving : Bool
  dropAt : Option XY

/-- Before anything is loaded. -/
def Page.start : Page := ⟨[], [], [], false, false, false, none⟩

/-- A card gets a place. -/
def Page.place (p : Page) (card : Card) (spot : XY) : Page :=
  { p with positions := setField p.positions card.key spot.position }

/-- The page after a write, and the blob that is sent. -/
def sent (r : Page × Json) : Page × Option Json := (r.1, some r.2)

/-- `saveLayout`, with the blob it sends. -/
def Page.saveLayout (p : Page) (positions : Option PosMap) (groups : Option (List Group)) : Page × Json :=
  let p := { p with positions := positions.getD p.positions }
  let groupsNow := groups.getD p.groupsRef
  ({ p with groupsRef := groupsNow, groups := groups.getD p.groups }, serializeLayout ⟨p.positions, groupsNow⟩)

/-- `persist`: a save is due after a drag. -/
def Page.persist (p : Page) (cards : List (Card × XY)) : Page :=
  { p with
    positions := cards.foldl (fun m c => setField m c.1.key c.2.round.position) []
    saving := true }

/-- A new group, where the menu was opened. -/
def Page.createGroup (p : Page) (id : String) : Page × Json :=
  let g := newGroup id ("Group " ++ toString (p.groupsRef.length + 1))
  let p := match p.dropAt with
    | some spot => p.place (.group id) spot
    | none => p
  { p with dropAt := none }.saveLayout none (some (p.groupsRef ++ [g]))

/-- A group gets another name, colour, size or member list. -/
def Page.updateGroup (p : Page) (id : String) (patch : Patch) : Page × Json :=
  p.saveLayout none (some (p.groupsRef.map fun g => if g.id = id then g.patch patch else g))

/-- The group goes, its devices stay. -/
def Page.dissolveGroup (p : Page) (id : String) : Page × Json :=
  p.saveLayout none (some (p.groupsRef.filter fun g => g.id ≠ id))

/-- `onClientDropped`: a device dropped on a group joins it, one dragged clear of its group leaves. `hit` is
    the group card under the dropped one. -/
def Page.clientDropped (p : Page) (clients : List String) (clientId : String) (spot : XY) (hit : Option String) :
    Page × Option Json :=
  if clientId ∉ clients then (p, none) else
  match hit, p.groupsRef.find? fun g => clientId ∈ g.members with
  | some groupId, none =>
    match p.groupsRef.find? fun g => g.id = groupId with
    | none => (p, none)
    | some group =>
      let p := p.place (.client clientId) (memberSeat group.members.length)
      sent (p.updateGroup group.id (.members (group.members ++ [clientId])))
  | none, some current =>
    -- React Flow's position is relative to the group's frame
    let origin := p.positions.lookup (Card.group current.id).key
    let abs : XY := ⟨round (spot.x + (origin.map fun v => numField v.val "x").getD 0),
      round (spot.y + (origin.map fun v => numField v.val "y").getD 0)⟩
    let p := p.place (.client clientId) abs
    sent (p.updateGroup current.id (.members (current.members.filter (· ≠ clientId))))
  | _, _ => (p, none)

/-- `onDone` of the add-device wizard: the new card goes where the canvas menu was opened. -/
def Page.deviceAdded (p : Page) (created : Option String) : Page × Option Json :=
  match created, p.dropAt with
  | some clientId, some spot =>
    let p := p.place (.client clientId) spot
    -- what is sent is `layout.current` as it is, not a serialized layout
    ({ p with dropAt := none }, some (obj (spread p.positions)))
  | _, _ => (p, none)

/-! ## Runs -/

/-- An event of the page. -/
inductive Action where
  /-- The saved layout is answered, or the request fails. -/
  | loaded (answer : Option Json)
  /-- React commits the state and runs its effects. -/
  | render
  | contextMenu (spot : XY)
  /-- A drag ends: where the cards are, the card that was dragged, the devices there are and the group card
      under it. -/
  | dragStop (cards : List (Card × XY)) (card : Card) (spot : XY) (clients : List String) (hit : Option String)
  /-- The due save is made. -/
  | timer
  | createGroup (id : String)
  | updateGroup (id : String) (patch : Patch)
  | dissolveGroup (id : String)
  | deviceAdded (created : Option String)

/-- What an event does to the page, and the blob it sends to be stored. The layout is answered once, cards
    are there to be dragged once it is drawn. -/
def Page.act (p : Page) : Action → Option (Page × Option Json)
  | .loaded answer =>
    if p.answered then none else
    match answer with
    | some raw =>
      some ({ p with positions := (parseLayout raw).positions, groups := (parseLayout raw).groups, answered := true },
        none)
    | none => some ({ p with answered := true }, none)
  | .render => some ({ p with groupsRef := p.groups, ready := p.answered }, none)
  | .contextMenu spot => some ({ p with dropAt := some spot }, none)
  | .dragStop cards card spot clients hit =>
    if p.ready then
      match card with
      | .client clientId => some ((p.persist cards).clientDropped clients clientId spot hit)
      | _ => some (p.persist cards, none)
    else none
  | .timer =>
    if p.saving then some ({ p with saving := false }, some (serializeLayout ⟨p.positions, p.groupsRef⟩)) else none
  | .createGroup id => some (sent (p.createGroup id))
  | .updateGroup id patch => some (sent (p.updateGroup id patch))
  | .dissolveGroup id => some (sent (p.dissolveGroup id))
  | .deviceAdded created => some (p.deviceAdded created)

/-- One event of a run. -/
structure Moment where
  before : Page
  action : Action
  after : Page
  write : Option Json

/-- What happens, action by action, if each can happen. -/
def trace : Page → List Action → Option (List Moment)
  | _, [] => some []
  | p, a :: as => (p.act a).bind fun (after, write) => (trace after as).map (⟨p, a, after, write⟩ :: ·)

end Web
end BeautyAwg
