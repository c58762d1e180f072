import BeautyAwg.Lib.Json
import BeautyAwg.Lib.Utf16

/-!
# `Web.SiteLinks`: the lines between locations

How the map draws site links (`web/app/components/AccessGraph.tsx`): the shape of every pair, the animations that a
change of shape starts, the edges, and what is sent when an edge is deleted. A `Map` or `Set` of the source is a
list without repetitions in the order of insertion. `now` stands for `performance.now()`, and `reduced` for the
user's preference for no motion.
-/

namespace BeautyAwg
namespace Web

open Utf16 Json

/-- A directed link. -/
@[ext] structure SiteLink where
  src : String
  dst : String
  deriving DecidableEq, Repr

/-- The link the other way. -/
def SiteLink.swap (l : SiteLink) : SiteLink := ⟨l.dst, l.src⟩

/-! ## Edge ids -/

/-- A location's card. -/
def nid (id : String) : String := "n:" ++ id

/-- The edge of a link one way. -/
def linkEdgeId (src dst : String) : String := "lnk:" ++ src ++ "~" ++ dst

/-- The edge stands for a link one way. -/
def isLinkEdge (id : String) : Bool := "lnk:".toList.isPrefixOf id.toList

/-- The edge of links both ways: the same, whichever is named first. -/
def busEdgeId (a b : String) : String := "bus:" ++ (sortPair a b).1 ++ "~" ++ (sortPair a b).2

/-- The edge stands for links both ways. -/
def isBusEdge (id : String) : Bool := "bus:".toList.isPrefixOf id.toList

/-- `parseLinkEdge` and `parseBusEdge`: the parts after the four characters that say which. -/
def parseEdge (id : String) : List String := ((id.toList.drop 4).splitOn '~').map String.ofList

/-- The links that `onEdgesDelete` unlinks for a removed edge, in turn. A part that is not there prints as
    `undefined`. -/
def unlinks (id : String) : List SiteLink :=
  let a := (parseEdge id).getD 0 "undefined"
  let b := (parseEdge id).getD 1 "undefined"
  if isBusEdge id then [⟨a, b⟩, ⟨b, a⟩] else if isLinkEdge id then [⟨a, b⟩] else []

/-! ## State -/

/-- How a pair of links is drawn. -/
inductive Shape where
  | one
  | bus
  deriving DecidableEq, Repr

/-- A pair of edges becomes one, or one becomes a pair. -/
inductive TxKind where
  | form
  | split
  deriving DecidableEq, Repr

/-- A change of shape that is being shown, and since when. -/
structure BusTx where
  kind : TxKind
  start : Int
  deriving DecidableEq, Repr

/-- What the map remembers between two runs: the shape of each pair, whether there was a run, and the animations
    in flight. -/
structure BusState where
  pairState : List (String × Shape)
  pairInit : Bool
  busTx : List (String × BusTx)

/-- An edge. `bus` marks a pair drawn as one. -/
structure Rel where
  id : String
  source : String
  target : String
  bus : Bool
  tx : Option BusTx
  deriving DecidableEq, Repr

section Reconcile

variable (reduced : Bool) (now : Int) (active : List String) (links : List SiteLink)

/-- Both ends are active. -/
def SiteLink.Live (l : SiteLink) : Prop := l.src ∈ active ∧ l.dst ∈ active

instance (l : SiteLink) : Decidable (l.Live active) := inferInstanceAs (Decidable (_ ∧ _))

/-- The `both` set: each link as one text. -/
def both : List String := links.map fun l => l.src ++ ">" ++ l.dst

/-- The link's reverse is in `both`. -/
def Mutual (l : SiteLink) : Prop := l.dst ++ ">" ++ l.src ∈ both links

instance (l : SiteLink) : Decidable (Mutual links l) := inferInstanceAs (Decidable (_ ∈ _))

/-- A link with a link back is drawn as one edge with it. -/
def shapeOf (l : SiteLink) : Shape := if Mutual links l then .bus else .one

/-- `pairNow`: the shape of every pair with both ends active. -/
def pairNow : List (String × Shape) :=
  (links.filter fun l => l.Live active).foldl (fun m l => setField m (busEdgeId l.src l.dst) (shapeOf links l)) []

/-- A change of shape begins, unless one is being shown or motion is reduced. -/
def startBusTx (busTx : List (String × BusTx)) (busId : String) (kind : TxKind) : List (String × BusTx) :=
  if (busTx.lookup busId).isSome then busTx
  else if reduced then busTx
  else setField busTx busId ⟨kind, now⟩

/-- The state after the shapes are compared. The first run only adopts them. -/
def comparePairs (st : BusState) : BusState :=
  let pairs := pairNow active links
  if st.pairInit = false then { st with pairState := pairs, pairInit := true }
  else
    let formed := pairs.foldl (fun tx e =>
      if st.pairState.lookup e.1 = some .one ∧ e.2 = .bus then startBusTx reduced now tx e.1 .form else tx) st.busTx
    let split := st.pairState.foldl (fun tx e =>
      if e.2 = .bus ∧ pairs.lookup e.1 = some .one then startBusTx reduced now tx e.1 .split else tx) formed
    { st with pairState := pairs, busTx := split }

/-- The loop over the links. A pair that is mutual, or still splitting, is drawn once. -/
def relsLoop (busTx : List (String × BusTx)) : List SiteLink → List String → List Rel
  | [], _ => []
  | l :: ls, drawn =>
    if ¬ l.Live active then relsLoop busTx ls drawn
    else
      let busId := busEdgeId l.src l.dst
      let tx := busTx.lookup busId
      if Mutual links l ∨ tx.map BusTx.kind = some .split then
        if busId ∈ drawn then relsLoop busTx ls drawn
        else ⟨busId, nid l.src, nid l.dst, true, tx⟩ :: relsLoop busTx ls (busId :: drawn)
      else ⟨linkEdgeId l.src l.dst, nid l.src, nid l.dst, false, none⟩ :: relsLoop busTx ls drawn

/-- One run over the data: the state it leaves and the link edges. -/
def reconcile (st : BusState) : BusState × List Rel :=
  let st' := comparePairs reduced now active links st
  (st', relsLoop active links st'.busTx links [])

end Reconcile

/-- No pair is collapsing. -/
def BusState.NoSplit (st : BusState) : Prop := ∀ busId tx, st.busTx.lookup busId = some tx → tx.kind ≠ .split

end Web
end BeautyAwg
