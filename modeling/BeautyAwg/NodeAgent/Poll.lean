import Mathlib.Data.List.Dedup
import BeautyAwg.Lib.Replace
import BeautyAwg.NodeAgent.Host
import BeautyAwg.Api.Handlers
import BeautyAwg.Awg.NodeConf

/-!
# `NodeAgent.Poll`: a node agent and its panel

The agent enrols, polls the panel with its token and acts on the answers (`cmd/nodeagent`); the panel
answers from its database (`handleEnrollPoll`), which other requests change meanwhile. Any query of a poll
can fail, and so can the network.

## Contents
- **Panel.** `nodeByToken`, `getNodeForExport`, `handleEnrollPoll`.
- **Agent.** `poll`, `Agent.handle`: what `pollLoop` does with an answer.
- **Runs.** `World`, `Event`, `World.fire`; a store call is one step, a poll is one for each thing it
  waits for.
-/

namespace BeautyAwg
namespace NodeAgent

open Netip Awg Store Api
open Replace (replaceAll)

/-! ## Panel -/

/-- The JSON of an answer; a key that is left out reads as empty. -/
structure PollBody where
  status : String
  config : String
  latestVersion : String
  updateURL : String
  deriving DecidableEq, Repr

/-- A panel's answer to a poll: its code, and the body read as JSON. -/
structure Response where
  code : Nat
  body : Except String PollBody

/-- A node's status, as the answer spells it. -/
def statusText : NodeStatus → String
  | .pending => "pending"
  | .active => "active"
  | .rejected => "rejected"

/-- The error of a query that finds no row. -/
def errNoRows : String := "no rows in result set"

/-- The row of a token. -/
def nodeByToken (t : Tables) (token : String) : Except String (Uuid × NodeStatus) :=
  match t.nodes.find? fun n => n.enrollToken = some token with
  | some n => .ok (n.id, n.status)
  | none => .error errNoRows

/-- The subnets of the nodes linked to this one, in either direction, each once. -/
def reachSubnets (t : Tables) (id : Uuid) : List Prefix :=
  ((t.links.filter fun l => l.src = id ∨ l.dst = id).flatMap fun l =>
    t.subnetsOf (if l.src = id then l.dst else l.src)).dedup

/-- The hub, the node and its linked subnets, as the query returns them. -/
def getNodeForExport (t : Tables) (id : Uuid) (reach : List Prefix) :
    Except String (Hub × Node × List Prefix) :=
  match t.nodes.find? fun n => n.id = id with
  | none => .error errNoRows
  | some n =>
    match n.address with
    | none => .error "can't scan into dest[1] (col: host): cannot scan NULL into *string"
    | some a => .ok (t.hub, ⟨n.name, a, t.subnetsOf id, n.keys, n.lanIface, n.preshared, false, "", []⟩, reach)

/-- The panel's answer to a poll, from what its queries returned. Whatever `NodeByToken` fails with, the
    answer is 404. -/
def handleEnrollPoll (lookup : Except String (Uuid × NodeStatus))
    (exported : Except String (Hub × Node × List Prefix)) (update : Option (String × String)) : Response :=
  match lookup with
  | .error _ => ⟨404, .error "unknown token\n"⟩
  | .ok (_, status) =>
    let (latest, url) := update.getD ("", "")
    if status = .active then
      match exported with
      | .error e => ⟨500, .error (e ++ "\n")⟩
      | .ok (hub, node, reach) =>
        ⟨200, .ok ⟨statusText status, renderNode hub node reach, latest, url⟩⟩
    else ⟨200, .ok ⟨statusText status, "", latest, url⟩⟩

/-! ## Agent -/

/-- What the agent saves. -/
structure AgentState where
  priv : String
  pub : String
  token : String
  panel : String
  deriving DecidableEq, Repr

/-- The agent; `lastApplied` is the configuration it applied last. -/
structure Agent (R : Type) where
  st : AgentState
  status : String
  latestVersion : String
  updateURL : String
  lastApplied : String
  host : Host String R
  deriving DecidableEq, Repr

/-- What a poll comes to: the node is gone, something failed, or an answer. -/
inductive PollResult where
  | gone
  | err (e : String)
  | ok (body : PollBody)

/-- What the agent makes of an answer, or of the network's error. -/
def poll : Except String Response → PollResult
  | .error e => .err e
  | .ok r =>
    if r.code = 404 then .gone
    else if r.code ≠ 200 then .err ("panel said " ++ toString r.code)
    else
      match r.body with
      | .error _ => .err "invalid character"
      | .ok body => .ok body

/-- The pushed configuration with the node's own private key in it. -/
def fullConfig (config priv : String) : String :=
  String.ofList (replaceAll nodePrivatePlaceholder.toList priv.toList 0 config.toList)

variable {R : Type} (q : Quick String R)

/-- Forget the panel; the key pair stays. -/
def Agent.reset (a : Agent R) : Agent R :=
  { a with st := { a.st with token := "", panel := "" }, status := "" }

/-- The body of `pollLoop` after a poll, with the private key read before it. -/
def Agent.handle (faults : Faults String) (priv : String) (a : Agent R) : PollResult → Agent R
  | .gone => { ({ a with host := teardown q a.host } : Agent R).reset with lastApplied := "" }
  | .err _ => a
  | .ok body =>
    let a := { a with
      status := body.status, latestVersion := body.latestVersion, updateURL := body.updateURL }
    if body.status = "active" ∧ body.config ≠ "" then
      let full := fullConfig body.config priv
      if full ≠ a.lastApplied then
        match writeAndApply q faults full a.host with
        | (host, true) => { a with host := host, lastApplied := full }
        | (host, false) => { a with host := host }
      else a
    else a

/-! ## Runs -/

/-- What failed while a poll was made. -/
inductive Failure where
  | lookup
  | export
  | network
  deriving DecidableEq, Repr

/-- Where the agent's poll is: not made, at the panel, between the panel's queries, or answered. -/
inductive Phase where
  | idle
  | asked (token priv : String)
  | looked (token priv : String) (lookup : Except String (Uuid × NodeStatus)) (failed : Option Failure)
  | answered (token priv : String) (answer : Except String Response) (failed : Option Failure)

/-- The panel's database, the tokens it has drawn, and the agent. -/
structure World (R : Type) where
  db : Db
  issued : List String
  agent : Agent R
  phase : Phase

/-- What the node's owner and its host put into an enrolment. -/
structure ConnectReq where
  panel : String
  secret : String
  keys : Keypair
  host : String
  lanIface : String
  subnet : Prefix

/-- What happens next: another request's store call, the agent's enrolment, or a stage of its poll. A fault
    is the error of a query. -/
inductive Event where
  | call (op : Op)
  | connect (fresh : Fresh) (req : ConnectReq)
  | ask
  | lookup (fault : Option String)
  | reply (reach : List Prefix) (fault : Option String) (update : Option (String × String))
  | drop (err : String)
  | act (faults : Faults String)

/-- The token a call draws. -/
def drawn : Op → Option String
  | .enrollNode _ newToken _ _ _ _ _ _ => some newToken
  | _ => none

/-- A store call, when the token it draws is new. -/
def World.call (w : World R) (op : Op) : Option (World R) :=
  if ∀ token ∈ drawn op, token ∉ w.issued then
    match Txn.run apply op.body w.db with
    | .ok (_, db) => some { w with db := db, issued := (drawn op).toList ++ w.issued }
    | .error _ => none
  else none

/-- What `EnrollNode` returns. -/
def enrollAnswer (db : Db) : Op → Option (String × NodeStatus)
  | .enrollNode id newToken name hostname lanIface pubkey subnets pick =>
    match Txn.run apply (enrollNode id newToken name hostname lanIface pubkey subnets pick) db with
    | .ok (answer, _) => some answer
    | .error _ => none
  | _ => none

/-- The agent draws its keys once, keeps the panel's address, and asks to be enrolled. -/
def World.connect (w : World R) (fresh : Fresh) (req : ConnectReq) : World R :=
  let keys := if w.agent.st.priv = "" then req.keys else ⟨w.agent.st.priv, w.agent.st.pub⟩
  let st : AgentState := ⟨keys.priv, keys.pub, w.agent.st.token, req.panel⟩
  let failed := { w with agent := { w.agent with st := st } }
  match handleEnroll fresh w.db.enrollSecret req.secret
      ⟨req.host, req.host, req.lanIface, st.pub, [req.subnet.text]⟩ with
  | .error _ => failed
  | .ok op =>
    match w.call op, enrollAnswer w.db op with
    | some w', some (token, status) =>
      { w' with agent := { w.agent with st := { st with token := token }, status := statusText status } }
    | _, _ => failed

/-- The agent enrols only when it has no token, and has one poll going at a time. -/
def World.fire (w : World R) (e : Event) : Option (World R) :=
  match e, w.phase with
  | .call op, _ => w.call op
  | .connect fresh req, .idle => if w.agent.st.token = "" then some (w.connect fresh req) else none
  | .ask, .idle =>
    if w.agent.st.panel ≠ "" ∧ w.agent.st.token ≠ "" then
      some { w with phase := .asked w.agent.st.token w.agent.st.priv }
    else none
  | .lookup fault, .asked token priv =>
    match fault with
    | some e => some { w with phase := .looked token priv (.error e) (some .lookup) }
    | none => some { w with phase := .looked token priv (nodeByToken w.db.toTables token) none }
  | .reply reach fault update, .looked token priv found failed =>
    match found with
    | .ok (id, .active) =>
      if reach.Perm (reachSubnets w.db.toTables id) then
        match fault with
        | some e =>
          some { w with phase := .answered token priv (.ok (handleEnrollPoll found (.error e) update)) (some .export) }
        | none =>
          let exported := getNodeForExport w.db.toTables id reach
          some { w with phase := .answered token priv (.ok (handleEnrollPoll found exported update)) failed }
      else none
    -- nothing is exported, so the second argument is not looked at
    | _ => some { w with phase := .answered token priv (.ok (handleEnrollPoll found (.error "") update)) failed }
  | .drop err, .asked token priv => some { w with phase := .answered token priv (.error err) (some .network) }
  | .drop err, .looked token priv _ _ =>
    some { w with phase := .answered token priv (.error err) (some .network) }
  | .drop err, .answered token priv _ _ =>
    some { w with phase := .answered token priv (.error err) (some .network) }
  | .act faults, .answered _ priv answer _ =>
    some { w with agent := w.agent.handle q faults priv (poll answer), phase := .idle }
  | _, _ => none

/-- A panel that has just started, and an agent that has not enrolled. -/
def World.init (hub : Hub) (secret : String) (host : Host String R) : World R :=
  ⟨Db.boot hub secret, [], ⟨⟨"", "", "", ""⟩, "", "", "", "", host⟩, .idle⟩

/-- The runs all of whose events satisfy `ok`. -/
def World.Runs (ok : Event → Prop) : World R → World R → Prop :=
  Relation.ReflTransGen fun w w' => ∃ e, ok e ∧ w.fire q e = some w'

/-- The world after a list of events, if each can happen. -/
def World.fireAll (w : World R) : List Event → Option (World R)
  | [] => some w
  | e :: es => (w.fire q e).bind fun w' => w'.fireAll es

end NodeAgent
end BeautyAwg
