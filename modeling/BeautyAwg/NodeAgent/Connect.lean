import BeautyAwg.NodeAgent.Poll

/-!
# `NodeAgent.Connect`: the connect form and the poll loop

The handler behind the agent's connect form, and the two goroutines that share the agent's state: a
handler, which holds the lock twice with the enrolment exchange between, and `pollLoop`, which holds it to
read the panel and the token, to note an answer and to reset. The panels may answer anything.

## Contents
- **Connect.** `normalizePanel`, `setPanel`, `enroll`, `connect`: the handler on its own. `url.Parse` is a
  parameter.
- **Threads.** `Loop` and `Conn` say where each goroutine is; `loopStep`, `connStep` are its moves, one
  for each critical section and each thing it waits for, and `Threads.fire` interleaves them.
- **Alone.** `connect_alone`, `handle_alone`: a goroutine that runs undisturbed does what the handler, or
  `Agent.handle`, does.
-/

namespace BeautyAwg
namespace NodeAgent

open Netip Awg Store Api

/-! ## Connect -/

/-- What the handler asks a parsed URL for. -/
structure Url where
  scheme : String
  host : String
  hostname : String
  port : String
  deriving DecidableEq, Repr

/-- `strings.Contains`. -/
def containsText (sub : List Char) : List Char → Bool
  | [] => sub.isEmpty
  | c :: cs => sub.isPrefixOf (c :: cs) || containsText sub cs

/-- The base URL of a panel, from what the owner typed. -/
def normalizePanel (parse : String → Option Url) (input : String) : Except String String :=
  let cs := trimSpace input.toList
  if cs = [] then .error "panel address required"
  else
    let text := String.ofList (if containsText "://".toList cs then cs else "http://".toList ++ cs)
    match parse text with
    | none => .error "invalid panel address"
    | some u =>
      if u.hostname = "" then .error "invalid panel address"
      else .ok (u.scheme ++ "://" ++ if u.port = "" then u.host ++ ":3000" else u.host)

/-- The request `enroll` sends; an empty secret is not sent. -/
structure EnrollCall where
  url : String
  secret : String
  body : EnrollReq
  deriving DecidableEq, Repr

/-- The body of an accepted announcement's answer. -/
structure EnrollBody where
  token : String
  status : String
  deriving DecidableEq, Repr

/-- A panel's answer: its code, its text, and the text read as JSON. -/
structure EnrollResponse where
  code : Nat
  text : String
  body : Except String EnrollBody

/-- The announcement of this host, under its own name, with one subnet. -/
def enrollCall (host secret : String) (st : AgentState) (lanIface : String) (subnet : Prefix) : EnrollCall :=
  ⟨st.panel ++ "/api/enroll", secret, ⟨host, host, lanIface, st.pub, [subnet.text]⟩⟩

/-- What the agent makes of the answer, or of the network's error. -/
def enrollResult : Except String EnrollResponse → Except String EnrollBody
  | .error e => .error e
  | .ok r =>
    if r.code ≠ 200 then
      .error ("panel said " ++ toString r.code ++ ": " ++ String.ofList (trimSpace r.text.toList))
    else r.body

/-- Why the state is not saved: the directory, or the file, which is left as it may be. -/
inductive SaveFault where
  | mkdir (err : String)
  | write (left : Option AgentState) (err : String)

/-- The state file after a save, and whether the save succeeded. -/
def saveState (fault : Option SaveFault) (st : AgentState) (file : Option AgentState) :
    Option AgentState × Except String Unit :=
  match fault with
  | none => (some st, .ok ())
  | some (.mkdir err) => (file, .error err)
  | some (.write left err) => (left, .error err)

/-- The first critical section of `connect`: draw the keys once, and set the panel. -/
def setPanel (keygen : Except String Keypair) (panelURL : String) (st : AgentState) :
    Except String AgentState :=
  if st.priv = "" then
    match keygen with
    | .error e => .error e
    | .ok kp => .ok { st with priv := kp.priv, pub := kp.pub, panel := panelURL }
  else .ok { st with panel := panelURL }

variable {R : Type}

/-- The critical section of `enroll`. -/
def takeToken (out : EnrollBody) (a : Agent R) : Agent R :=
  { a with st := { a.st with token := out.token }, status := out.status }

/-- The agent, whether its poll loop runs, and what its state file holds for `loadState`. -/
structure Process (R : Type) where
  agent : Agent R
  polling : Bool
  saved : Option AgentState
  deriving DecidableEq, Repr

/-- The agent as `main` starts it. -/
def Process.boot (file : Option AgentState) (host : Host String R) : Process R :=
  let st := file.getD ⟨"", "", "", ""⟩
  ⟨⟨st, "", "", "", "", host⟩, st.panel ≠ "" ∧ st.token ≠ "", file⟩

/-- What the host, the panel and the disk do while the agent connects. -/
structure Surroundings where
  host : String
  secret : String
  lan : Except String (String × Prefix)
  keygen : Except String Keypair
  panel : EnrollCall → Except String EnrollResponse
  save : Option SaveFault

variable (parse : String → Option Url) (env : Surroundings)

/-- The checks before the lock: the request's JSON, the address, the LAN. -/
def checkConnect (lan : Except String (String × Prefix)) (body : Option String) :
    Except HttpError (String × String × Prefix) :=
  match body with
  | none => .error (badRequest "bad json")
  | some panel =>
    match normalizePanel parse panel with
    | .error e => .error (badRequest e)
    | .ok url =>
      match lan with
      | .error e => .error ⟨500, "could not auto-detect LAN: " ++ e⟩
      | .ok (ifc, subnet) => .ok (url, ifc, subnet)

/-- The announcement, and what the agent keeps of its answer. -/
def Process.enroll (st : AgentState) (lanIface : String) (subnet : Prefix) (p : Process R) :
    Process R × Except String Unit :=
  match enrollResult (env.panel (enrollCall env.host env.secret st lanIface subnet)) with
  | .error e => (p, .error e)
  | .ok out =>
    let agent := takeToken out p.agent
    let (file, res) := saveState env.save agent.st p.saved
    ({ p with agent := agent, saved := file }, res)

/-- The handler, with nothing running beside it. -/
def Process.connect (body : Option String) (p : Process R) : Process R × Except HttpError Unit :=
  match checkConnect parse env.lan body with
  | .error e => (p, .error e)
  | .ok (url, ifc, subnet) =>
    match setPanel env.keygen url p.agent.st with
    | .error e => (p, .error ⟨500, e⟩)
    | .ok st =>
      match ({ p with agent := { p.agent with st := st } } : Process R).enroll env st ifc subnet with
      | (p, .error e) => (p, .error ⟨502, "enroll failed: " ++ e⟩)
      | (p, .ok ()) => ({ p with polling := true }, .ok ())

/-! ## Threads -/

/-- Where `pollLoop` is, with what it has read: at the top, waiting for the panel, with an answer, after the
    teardown, before the state without a panel is saved, or before a configuration is installed. -/
inductive Loop where
  | top
  | asked (panel token priv : String)
  | answered (panel token priv : String) (r : PollResult)
  | reset (panel token : String)
  | save (panel token : String) (st : AgentState)
  | install (body : PollBody) (priv : String)

/-- Where the connect handler is: not called (or answered with an error), before its first critical
    section, waiting for the panel, before its second, before the save, before `startPolling`, or answered
    with success. -/
inductive Conn where
  | idle
  | checked (url lanIface : String) (subnet : Prefix)
  | asked (st : AgentState) (lanIface : String) (subnet : Prefix)
  | answered (panel : String) (out : EnrollBody)
  | save (panel : String) (st : AgentState)
  | saved (panel token : String)
  | done (panel token : String)

/-- What `pollLoop` can do next, with what the network and the host make of it. -/
inductive LoopMove where
  | read
  | answer (a : Except String Response)
  | act
  | reset
  | save (fault : Option SaveFault)
  | install (faults : Faults String)

/-- What the connect handler can do next, with what the network and the host make of it. -/
inductive ConnMove where
  | request (body : Option String) (lan : Except String (String × Prefix))
  | setPanel (keygen : Except String Keypair)
  | answer (a : Except String EnrollResponse)
  | takeToken
  | save (fault : Option SaveFault)
  | startPolling

variable (q : Quick String R)

/-- A move of `pollLoop`. -/
def loopStep (p : Process R) : Loop → LoopMove → Option (Process R × Loop)
  | .top, .read =>
    if p.polling then
      let st := p.agent.st
      some (p, if st.panel ≠ "" ∧ st.token ≠ "" then .asked st.panel st.token st.priv else .top)
    else none
  | .asked panel token priv, .answer a => some (p, .answered panel token priv (poll a))
  | .answered panel token priv r, .act =>
    match r with
    | .gone => some ({ p with agent := { p.agent with host := teardown q p.agent.host } }, .reset panel token)
    | .err _ => some (p, .top)
    | .ok body =>
      let agent := { p.agent with
        status := body.status, latestVersion := body.latestVersion, updateURL := body.updateURL }
      some ({ p with agent := agent },
        if body.status = "active" ∧ body.config ≠ "" then .install body priv else .top)
  | .reset panel token, .reset => some ({ p with agent := p.agent.reset }, .save panel token p.agent.reset.st)
  | .save _ _ st, .save fault =>
    -- the error of the save is dropped
    some ({ p with agent := { p.agent with lastApplied := "" }, saved := (saveState fault st p.saved).1 }, .top)
  | .install body priv, .install faults =>
    let full := fullConfig body.config priv
    if full ≠ p.agent.lastApplied then
      match writeAndApply q faults full p.agent.host with
      | (host, true) => some ({ p with agent := { p.agent with host := host, lastApplied := full } }, .top)
      | (host, false) => some ({ p with agent := { p.agent with host := host } }, .top)
    else some (p, .top)
  | _, _ => none

/-- A request that arrives: its checks take no lock. -/
def connRequest (body : Option String) (lan : Except String (String × Prefix)) : Conn :=
  match checkConnect parse lan body with
  | .error _ => .idle
  | .ok (url, ifc, subnet) => .checked url ifc subnet

/-- A move of the connect handler. -/
def connStep (p : Process R) : Conn → ConnMove → Option (Process R × Conn)
  | .idle, .request body lan => some (p, connRequest parse body lan)
  | .done _ _, .request body lan => some (p, connRequest parse body lan)
  | .checked url ifc subnet, .setPanel keygen =>
    match setPanel keygen url p.agent.st with
    | .error _ => some (p, .idle)
    | .ok st => some ({ p with agent := { p.agent with st := st } }, .asked st ifc subnet)
  | .asked st _ _, .answer a =>
    match enrollResult a with
    | .error _ => some (p, .idle)
    | .ok out => some (p, .answered st.panel out)
  | .answered panel out, .takeToken =>
    some ({ p with agent := takeToken out p.agent }, .save panel (takeToken out p.agent).st)
  | .save panel st, .save fault =>
    match saveState fault st p.saved with
    | (file, .error _) => some ({ p with saved := file }, .idle)
    | (file, .ok ()) => some ({ p with saved := file }, .saved panel st.token)
  | .saved panel token, .startPolling => some ({ p with polling := true }, .done panel token)
  | _, _ => none

/-- The process with its two goroutines, and the panels and tokens that were answered with 404 so far. -/
structure Threads (R : Type) where
  proc : Process R
  loop : Loop
  conn : Conn
  unknown : List (String × String)

/-- A move of one of the two. -/
inductive Move where
  | loop (m : LoopMove)
  | conn (m : ConnMove)

/-- The panel and the token of an answer that says the token is unknown. -/
def Loop.reported : Loop → List (String × String)
  | .answered panel token _ .gone => [(panel, token)]
  | _ => []

/-- The agent after a move, if it can be made now. -/
def Threads.fire (w : Threads R) : Move → Option (Threads R)
  | .loop m => (loopStep q w.proc w.loop m).map fun (p, l) => ⟨p, l, w.conn, l.reported ++ w.unknown⟩
  | .conn m => (connStep parse w.proc w.conn m).map fun (p, c) => ⟨p, w.loop, c, w.unknown⟩

/-- A process that has just started. -/
def Threads.boot (file : Option AgentState) (host : Host String R) : Threads R :=
  ⟨.boot file host, .top, .idle, []⟩

/-- The runs all of whose moves satisfy `ok` where they are made. -/
def Threads.Runs (ok : Move → Threads R → Prop) : Threads R → Threads R → Prop :=
  Relation.ReflTransGen fun w w' => ∃ m, ok m w ∧ w.fire parse q m = some w'

/-- The agent after a list of moves, each made where `ok` allows it. -/
def Threads.fireAll (ok : Move → Threads R → Bool) (w : Threads R) : List Move → Option (Threads R)
  | [] => some w
  | m :: ms => if ok m w then (w.fire parse q m).bind fun w' => w'.fireAll ok ms else none

/-! ## Alone -/

/-- Several moves of the handler with none of the loop between. -/
def connRun (p : Process R) (c : Conn) : List ConnMove → Option (Process R × Conn)
  | [] => some (p, c)
  | m :: ms => (connStep parse p c m).bind fun (p, c) => connRun p c ms

/-- Moves of the poll loop alone. -/
def loopRun (p : Process R) (l : Loop) : List LoopMove → Option (Process R × Loop)
  | [] => some (p, l)
  | m :: ms => (loopStep q p l m).bind fun (p, l) => loopRun p l ms

/-- The handler's moves, made one after another, are the handler; it answers with success when they end so. -/
theorem connect_alone (body : Option String) (p : Process R) : ∃ ms c,
    connRun parse p .idle ms = some ((p.connect parse env body).1, c) ∧
      ((p.connect parse env body).2 = .ok () ↔ ∃ panel token, c = .done panel token) := by
  unfold Process.connect
  cases hcheck : checkConnect parse env.lan body with
  | error e =>
    refine ⟨[.request body env.lan], .idle, ?_, by simp⟩
    simp only [connRun, connStep, connRequest, hcheck, Option.bind_some]
  | ok r =>
    obtain ⟨url, ifc, subnet⟩ := r
    dsimp only
    cases hset : setPanel env.keygen url p.agent.st with
    | error e =>
      refine ⟨[.request body env.lan, .setPanel env.keygen], .idle, ?_, by simp⟩
      simp only [connRun, connStep, connRequest, hcheck, hset, Option.bind_some]
    | ok st =>
      dsimp only [Process.enroll]
      cases hout : enrollResult (env.panel (enrollCall env.host env.secret st ifc subnet)) with
      | error e =>
        refine ⟨[.request body env.lan, .setPanel env.keygen,
          .answer (env.panel (enrollCall env.host env.secret st ifc subnet))], .idle, ?_, by simp⟩
        simp only [connRun, connStep, connRequest, hcheck, hset, hout, Option.bind_some]
      | ok out =>
        dsimp only
        -- the exchange went through; what is left is the save
        cases hsave : saveState env.save (takeToken out ({ p.agent with st := st } : Agent R)).st p.saved with
        | mk file res =>
          cases res with
          | error e =>
            refine ⟨[.request body env.lan, .setPanel env.keygen,
              .answer (env.panel (enrollCall env.host env.secret st ifc subnet)), .takeToken, .save env.save],
              .idle, ?_, by simp⟩
            simp only [connRun, connStep, connRequest, hcheck, hset, hout, hsave, Option.bind_some]
          | ok u =>
            refine ⟨[.request body env.lan, .setPanel env.keygen,
              .answer (env.panel (enrollCall env.host env.secret st ifc subnet)), .takeToken, .save env.save,
              .startPolling], .done st.panel out.token, ?_, by simp⟩
            simp only [connRun, connStep, connRequest, hcheck, hset, hout, hsave, Option.bind_some]
            rfl

/-- The loop's moves after an answer, made one after another, are `Agent.handle`. -/
theorem handle_alone (faults : Faults String) (panel token priv : String) (r : PollResult) (p : Process R) :
    ∃ ms p', loopRun q p (.answered panel token priv r) ms = some (p', .top) ∧
      p'.agent = p.agent.handle q faults priv r := by
  cases r with
  | gone => exact ⟨[.act, .reset, .save none], _, rfl, rfl⟩
  | err e => exact ⟨[.act], _, rfl, rfl⟩
  | ok body =>
    by_cases hpush : body.status = "active" ∧ body.config ≠ ""
    · by_cases hnew : fullConfig body.config priv ≠ p.agent.lastApplied
      · cases hwrite : writeAndApply q faults (fullConfig body.config priv) p.agent.host with
        | mk host done =>
          refine ⟨[.act, .install faults], ?_⟩
          cases done <;>
            simp only [loopRun, loopStep, Agent.handle, if_pos hpush, if_pos hnew, hwrite, Option.bind_some,
              Option.some.injEq, Prod.mk.injEq, and_true, exists_eq_left']
      · refine ⟨[.act, .install faults], ?_⟩
        simp only [loopRun, loopStep, Agent.handle, if_pos hpush, if_neg hnew, Option.bind_some,
          Option.some.injEq, Prod.mk.injEq, and_true, exists_eq_left']
    · refine ⟨[.act], ?_⟩
      simp only [loopRun, loopStep, Agent.handle, if_neg hpush, Option.bind_some, Option.some.injEq,
        Prod.mk.injEq, and_true, exists_eq_left']

end NodeAgent
end BeautyAwg
