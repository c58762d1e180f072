import BeautyAwg.NodeAgent.Connect

/-!
# `NodeAgent.Correctness.Connect`: what a connect leaves behind

`connect` sets the panel before it asks it for a token, and a failed exchange does not put the old one
back: the poll loop then asks the new panel about the old panel's token. And while a connect runs, the loop
may still hold an answer about the old token; its reset clears whatever the agent holds by then.

## Contents
- **Failed.** `connect_failed_iff`: when a connect that fails leaves panel and token alone.
- **Undisturbed.** `noStaleReset`, the condition on the loop's moves; `Inv`, `inv_fire`, and
  `connect_stands`, over all runs.
-/

namespace BeautyAwg
namespace NodeAgent

open Netip Awg Store Api

variable {R : Type} {parse : String → Option Url} {env : Surroundings} {body : Option String}

/-! ## Failed -/

/-- The panel and the token that `pollLoop` reads. -/
def Process.readPoll (p : Process R) : String × String := (p.agent.st.panel, p.agent.st.token)

/-- The request is refused before the panel is set; or the address is that of the agent's panel, and if the
    exchange with it succeeded, the token is the agent's. -/
def Unmoved (parse : String → Option Url) (env : Surroundings) (body : Option String) (p : Process R) : Prop :=
  ∀ url ifc subnet st, checkConnect parse env.lan body = .ok (url, ifc, subnet) →
    setPanel env.keygen url p.agent.st = .ok st → url = p.agent.st.panel ∧
      ∀ out, enrollResult (env.panel (enrollCall env.host env.secret st ifc subnet)) = .ok out →
        out.token = p.agent.st.token

/-- The first critical section sets the panel and keeps the token. -/
theorem setPanel_ok {keygen : Except String Keypair} {url : String} {st st' : AgentState}
    (h : setPanel keygen url st = .ok st') : st'.panel = url ∧ st'.token = st.token := by
  unfold setPanel at h
  split at h
  · split at h
    · exact absurd h (by simp)
    · rw [← Except.ok.inj h]
      exact ⟨rfl, rfl⟩
  · rw [← Except.ok.inj h]
    exact ⟨rfl, rfl⟩

/-- After the enrolment the loop reads the panel that was set, with the new token if there is one. -/
theorem enroll_readPoll (env : Surroundings) (st : AgentState) (ifc : String) (subnet : Prefix) (p : Process R) :
    (p.enroll env st ifc subnet).1.readPoll = (p.agent.st.panel,
      (enrollResult (env.panel (enrollCall env.host env.secret st ifc subnet))).toOption.elim
        p.agent.st.token EnrollBody.token) := by
  unfold Process.enroll
  cases enrollResult (env.panel (enrollCall env.host env.secret st ifc subnet)) with
  | error e => rfl
  | ok out => rfl

/-- What the loop reads after a connect, failed or not. -/
theorem connect_readPoll (parse : String → Option Url) (env : Surroundings) (body : Option String)
    (p : Process R) : (p.connect parse env body).1.readPoll =
      match checkConnect parse env.lan body with
      | .error _ => p.readPoll
      | .ok (url, ifc, subnet) =>
        match setPanel env.keygen url p.agent.st with
        | .error _ => p.readPoll
        | .ok st => (url, (enrollResult (env.panel (enrollCall env.host env.secret st ifc subnet))).toOption.elim
            p.agent.st.token EnrollBody.token) := by
  unfold Process.connect
  cases checkConnect parse env.lan body with
  | error e => rfl
  | ok r =>
    obtain ⟨url, ifc, subnet⟩ := r
    dsimp only
    cases hset : setPanel env.keygen url p.agent.st with
    | error e => rfl
    | ok st =>
      obtain ⟨hpanel, htoken⟩ := setPanel_ok hset
      have hread := enroll_readPoll env st ifc subnet ({ p with agent := { p.agent with st := st } } : Process R)
      dsimp only at hread ⊢
      rw [hpanel, htoken] at hread
      rw [← hread]
      -- `startPolling` touches neither
      split
      · rename_i heq
        rw [heq]
      · rename_i heq
        rw [heq]
        rfl

/-- **A connect that fails.** Failed or not, a connect leaves the panel and the token that the loop reads
    exactly when it was refused before the panel was set, or asked for the panel the agent has and got no
    other token. -/
theorem connect_keeps_panel_iff (parse : String → Option Url) (env : Surroundings) (body : Option String)
    (p : Process R) : (p.connect parse env body).1.readPoll = p.readPoll ↔ Unmoved parse env body p := by
  rw [connect_readPoll]
  cases hcheck : checkConnect parse env.lan body with
  | error e => simp [hcheck, Unmoved]
  | ok r =>
    obtain ⟨url, ifc, subnet⟩ := r
    dsimp only
    cases hset : setPanel env.keygen url p.agent.st with
    | error e =>
      refine iff_of_true rfl fun url' ifc' subnet' st' hc hs => ?_
      obtain ⟨rfl, -⟩ := Prod.mk.inj (Except.ok.inj (hcheck.symm.trans hc))
      exact absurd (hset.symm.trans hs) (by simp)
    | ok st =>
      rw [Process.readPoll, Prod.mk.injEq]
      constructor
      · rintro ⟨hurl, hout⟩ url' ifc' subnet' st' hc hs
        obtain ⟨rfl, hrest⟩ := Prod.mk.inj (Except.ok.inj (hcheck.symm.trans hc))
        obtain ⟨rfl, rfl⟩ := Prod.mk.inj hrest
        obtain rfl : st = st' := Except.ok.inj (hset.symm.trans hs)
        refine ⟨hurl, fun out ho => ?_⟩
        rwa [ho] at hout
      · intro hun
        obtain ⟨hurl, hout⟩ := hun url ifc subnet st hcheck hset
        refine ⟨hurl, ?_⟩
        cases ho : enrollResult (env.panel (enrollCall env.host env.secret st ifc subnet)) with
        | error e => rfl
        | ok out => exact hout out ho

/-- An enrolled agent, and its owner's request for a second panel that cannot be reached. -/
def enrolledAgent : Process Unit :=
  ⟨⟨⟨"priv", "pub", "tok", "http://a:3000"⟩, "active", "", "", "", ⟨some "conf", none, ()⟩⟩, true, none⟩

/-- A host with a LAN whose panel does not answer. -/
def unreachable : Surroundings :=
  ⟨"home", "", .ok ("eth0", ⟨.ofBytes 192 168 1 0, 24⟩), .error "", fun _ => .error "connection refused", none⟩

/-- **The defect.** The connect fails, and the loop now asks the second panel about the first one's
    token. -/
theorem connect_fails_and_moves :
    (enrolledAgent.connect (fun _ => some ⟨"http", "b", "b", ""⟩) unreachable (some "b")).2 =
      .error ⟨502, "enroll failed: connection refused"⟩ ∧
    (enrolledAgent.connect (fun _ => some ⟨"http", "b", "b", ""⟩) unreachable (some "b")).1.readPoll =
      ("http://b:3000", "tok") ∧
    (enrolledAgent.connect (fun _ => some ⟨"http", "b", "b", ""⟩) unreachable (some "b")).1.readPoll ≠
      enrolledAgent.readPoll := by
  refine ⟨?_, ?_, ?_⟩ <;> decide +kernel

/-! ## Undisturbed -/

/-- No connect has set its panel yet, or the connect's own panel and token are these. -/
def Conn.spares (panel token : String) : Conn → Bool
  | .idle => true
  | .checked _ _ _ => true
  | .asked _ _ _ => false
  | .answered panel' out => panel' = panel ∧ out.token = token
  | .save panel' st => panel' = panel ∧ st.token = token
  | .saved panel' token' => panel' = panel ∧ token' = token
  | .done panel' token' => panel' = panel ∧ token' = token

/-- A reset is not made once a connect has set its panel, and not saved once a connect has saved, unless the
    answer was about the connect's own panel and token. -/
def noStaleReset (m : Move) (w : Threads R) : Bool :=
  match m, w.loop, w.conn with
  | .loop .reset, .reset panel token, c => c.spares panel token
  | .loop (.save _), .save panel token _, .saved panel' token' => panel' = panel ∧ token' = token
  | .loop (.save _), .save panel token _, .done panel' token' => panel' = panel ∧ token' = token
  | _, _, _ => true

/-- The panel and the token of the 404 that the loop is acting on. -/
def Loop.acting : Loop → Option (String × String)
  | .answered panel token _ .gone => some (panel, token)
  | .reset panel token => some (panel, token)
  | .save panel token _ => some (panel, token)
  | _ => none

/-- The agent and its file have this panel and this token. -/
structure Process.Has (p : Process R) (panel token : String) : Prop where
  panel_eq : p.agent.st.panel = panel
  token_eq : p.agent.st.token = token
  saved : ∃ st, p.saved = some st ∧ st.panel = panel ∧ st.token = token

/-- What the handler's position says about the agent's state and its file. -/
def Conn.Stands (p : Process R) (unknown : List (String × String)) : Conn → Prop
  | .asked st _ _ => p.agent.st.panel = st.panel
  | .answered panel out => (panel, out.token) ∈ unknown ∨ p.agent.st.panel = panel
  | .save panel st => (panel, st.token) ∈ unknown ∨
      st.panel = panel ∧ p.agent.st.panel = panel ∧ p.agent.st.token = st.token
  | .saved panel token => (panel, token) ∈ unknown ∨ p.Has panel token
  | .done panel token => (panel, token) ∈ unknown ∨ p.Has panel token
  | _ => True

/-- The invariant: a 404 that is acted on was answered, and the handler's work stands. -/
structure Standing (w : Threads R) : Prop where
  acting : ∀ pair, w.loop.acting = some pair → pair ∈ w.unknown
  stands : w.conn.Stands w.proc w.unknown

variable {q : Quick String R} {p p' : Process R} {l l' : Loop} {c c' : Conn} {w w' : Threads R}

/-- A connect still stands when the process keeps its memory and its file. -/
theorem Conn.Stands.frame {unknown unknown' : List (String × String)} (h : c.Stands p unknown)
    (hst : p'.agent.st = p.agent.st) (hsaved : p'.saved = p.saved) (hsub : unknown ⊆ unknown') :
    c.Stands p' unknown' := by
  have hhas : ∀ {panel token}, p.Has panel token → p'.Has panel token := fun hp =>
    ⟨by rw [hst]; exact hp.panel_eq, by rw [hst]; exact hp.token_eq, by rw [hsaved]; exact hp.saved⟩
  cases c with
  | idle | checked => trivial
  | asked st ifc subnet => exact (congrArg AgentState.panel hst).trans h
  | answered panel out =>
    refine h.imp (fun hu => hsub hu) fun hp => ?_
    rw [hst]
    exact hp
  | save panel st =>
    refine h.imp (fun hu => hsub hu) fun hp => ?_
    rw [hst]
    exact hp
  | saved panel token => exact h.imp (fun hu => hsub hu) hhas
  | done panel token => exact h.imp (fun hu => hsub hu) hhas

/-- A move of the loop leaves state and file alone, or resets the state, or saves a reset. -/
theorem loopStep_frame {m : LoopMove} (h : loopStep q p l m = some (p', l')) :
    (p'.agent.st = p.agent.st ∧ p'.saved = p.saved) ∨
      (∃ panel token, l = .reset panel token ∧ m = .reset ∧ p' = { p with agent := p.agent.reset }) ∨
      ∃ panel token st fault, l = .save panel token st ∧ m = .save fault ∧ p'.agent.st = p.agent.st := by
  unfold loopStep at h
  split at h
  · split at h
    · rw [← (Prod.mk.inj (Option.some.inj h)).1]
      exact Or.inl ⟨rfl, rfl⟩
    · exact absurd h (by simp)
  · rw [← (Prod.mk.inj (Option.some.inj h)).1]
    exact Or.inl ⟨rfl, rfl⟩
  · split at h <;> rw [← (Prod.mk.inj (Option.some.inj h)).1] <;> exact Or.inl ⟨rfl, rfl⟩
  · rename_i panel token
    exact Or.inr (Or.inl ⟨panel, token, rfl, rfl, (Prod.mk.inj (Option.some.inj h)).1.symm⟩)
  · rename_i panel token st fault
    refine Or.inr (Or.inr ⟨panel, token, st, fault, rfl, rfl, ?_⟩)
    rw [← (Prod.mk.inj (Option.some.inj h)).1]
  · dsimp only at h
    split at h
    · split at h <;> rw [← (Prod.mk.inj (Option.some.inj h)).1] <;> exact Or.inl ⟨rfl, rfl⟩
    · rw [← (Prod.mk.inj (Option.some.inj h)).1]
      exact Or.inl ⟨rfl, rfl⟩
  · exact absurd h (by simp)

/-- A 404 that the loop acts on has just been answered, or the loop was acting on it. -/
theorem loopStep_acting {m : LoopMove} (h : loopStep q p l m = some (p', l')) {pair : String × String}
    (ha : l'.acting = some pair) : pair ∈ l'.reported ∨ l.acting = some pair := by
  unfold loopStep at h
  split at h
  · split at h
    · rw [← (Prod.mk.inj (Option.some.inj h)).2] at ha
      split at ha <;> exact absurd ha (by simp [Loop.acting])
    · exact absurd h (by simp)
  · rename_i panel token priv a
    rw [← (Prod.mk.inj (Option.some.inj h)).2] at ha ⊢
    cases hpoll : poll a with
    | gone =>
      -- only a `404` makes the loop act on the pair it asked with
      rw [hpoll] at ha
      exact Or.inl (List.mem_singleton.mpr (Option.some.inj ha).symm)
    | err e => rw [hpoll] at ha; exact absurd ha (by simp [Loop.acting])
    | ok body => rw [hpoll] at ha; exact absurd ha (by simp [Loop.acting])
  · split at h
    · rw [← (Prod.mk.inj (Option.some.inj h)).2] at ha
      exact Or.inr ha
    · rw [← (Prod.mk.inj (Option.some.inj h)).2] at ha
      exact absurd ha (by simp [Loop.acting])
    · rw [← (Prod.mk.inj (Option.some.inj h)).2] at ha
      split at ha <;> exact absurd ha (by simp [Loop.acting])
  · rw [← (Prod.mk.inj (Option.some.inj h)).2] at ha
    exact Or.inr ha
  · rw [← (Prod.mk.inj (Option.some.inj h)).2] at ha
    exact absurd ha (by simp [Loop.acting])
  · -- an answer that is applied ends the round
    have htop : l' = .top := by
      dsimp only at h
      split at h
      · split at h <;> exact (Prod.mk.inj (Option.some.inj h)).2.symm
      · exact (Prod.mk.inj (Option.some.inj h)).2.symm
    rw [htop] at ha
    exact absurd ha (by simp [Loop.acting])
  · exact absurd h (by simp)

/-- A save that succeeds leaves what it saved. -/
theorem saveState_ok {fault : Option SaveFault} {st : AgentState} {file file' : Option AgentState} {u : Unit}
    (h : saveState fault st file = (file', .ok u)) : file' = some st := by
  unfold saveState at h
  split at h
  · exact (Prod.mk.inj h).1.symm
  · exact absurd (Prod.mk.inj h).2 (by simp)
  · exact absurd (Prod.mk.inj h).2 (by simp)

/-- Every move of the handler keeps what its position says. -/
theorem stands_connStep {unknown : List (String × String)} {m : ConnMove}
    (h : connStep parse p c m = some (p', c')) (hs : c.Stands p unknown) : c'.Stands p' unknown := by
  have hrequest : ∀ body lan, (connRequest parse body lan).Stands p unknown := by
    intro body lan
    unfold connRequest
    split <;> trivial
  unfold connStep at h
  split at h
  · obtain ⟨rfl, rfl⟩ := Prod.mk.inj (Option.some.inj h)
    exact hrequest _ _
  · obtain ⟨rfl, rfl⟩ := Prod.mk.inj (Option.some.inj h)
    exact hrequest _ _
  · split at h <;> obtain ⟨rfl, rfl⟩ := Prod.mk.inj (Option.some.inj h)
    · trivial
    · rfl
  · split at h <;> obtain ⟨rfl, rfl⟩ := Prod.mk.inj (Option.some.inj h)
    · trivial
    · exact Or.inr hs
  · obtain ⟨rfl, rfl⟩ := Prod.mk.inj (Option.some.inj h)
    exact hs.imp_right fun hp => ⟨hp, hp, rfl⟩
  · split at h
    · obtain ⟨rfl, rfl⟩ := Prod.mk.inj (Option.some.inj h)
      trivial
    · rename_i hsave
      obtain ⟨rfl, rfl⟩ := Prod.mk.inj (Option.some.inj h)
      exact hs.imp_right fun ⟨hpanel, hp, ht⟩ => ⟨hp, ht, _, saveState_ok hsave, hpanel, rfl⟩
  · obtain ⟨rfl, rfl⟩ := Prod.mk.inj (Option.some.inj h)
    exact hs.imp_right fun hp => ⟨hp.panel_eq, hp.token_eq, hp.saved⟩
  · exact absurd h (by simp)

/-- A reset that spares the connect keeps what the handler's position says. -/
theorem stands_reset {unknown : List (String × String)} {panel token : String}
    (hmem : (panel, token) ∈ unknown) (hspares : c.spares panel token = true) : c.Stands p unknown := by
  cases c with
  | idle | checked => trivial
  | asked => exact absurd hspares (by simp [Conn.spares])
  | answered panel' out =>
    obtain ⟨rfl, rfl⟩ := of_decide_eq_true hspares
    exact Or.inl hmem
  | save panel' st =>
    obtain ⟨rfl, rfl⟩ := of_decide_eq_true hspares
    exact Or.inl hmem
  | saved panel' token' =>
    obtain ⟨rfl, rfl⟩ := of_decide_eq_true hspares
    exact Or.inl hmem
  | done panel' token' =>
    obtain ⟨rfl, rfl⟩ := of_decide_eq_true hspares
    exact Or.inl hmem

/-- **Step.** Every move that makes no stale reset keeps the invariant. -/
theorem standing_fire {m : Move} (hok : noStaleReset m w = true) (h : w.fire parse q m = some w')
    (hw : Standing w) : Standing w' := by
  cases m with
  | conn m =>
    obtain ⟨⟨p', c'⟩, hstep, rfl⟩ := Option.map_eq_some_iff.mp h
    exact ⟨hw.acting, stands_connStep hstep hw.stands⟩
  | loop m =>
    obtain ⟨⟨p', l'⟩, hstep, rfl⟩ := Option.map_eq_some_iff.mp h
    have hsub : w.unknown ⊆ l'.reported ++ w.unknown := fun x hx => List.mem_append_right _ hx
    refine ⟨fun pair ha => ?_, ?_⟩
    · rcases loopStep_acting hstep ha with hnew | hold
      · exact List.mem_append_left _ hnew
      · exact hsub (hw.acting pair hold)
    · show w.conn.Stands p' (l'.reported ++ w.unknown)
      rcases loopStep_frame hstep with
        ⟨hst, hsaved⟩ | ⟨panel, token, hl, rfl, -⟩ | ⟨panel, token, st, fault, hl, rfl, hst⟩
      · exact hw.stands.frame hst hsaved hsub
      · have hmem := hw.acting (panel, token) (by rw [hl]; rfl)
        simp only [noStaleReset, hl] at hok
        exact stands_reset (hsub hmem) hok
      · have hmem := hw.acting (panel, token) (by rw [hl]; rfl)
        have hstands := hw.stands
        -- only after its save does the handler's position speak of the file
        cases hc : w.conn with
        | saved panel' token' =>
          simp only [noStaleReset, hl, hc, decide_eq_true_eq] at hok
          obtain ⟨rfl, rfl⟩ := hok
          exact Or.inl (hsub hmem)
        | done panel' token' =>
          simp only [noStaleReset, hl, hc, decide_eq_true_eq] at hok
          obtain ⟨rfl, rfl⟩ := hok
          exact Or.inl (hsub hmem)
        | idle | checked => trivial
        | asked st' ifc subnet =>
          rw [hc] at hstands
          exact (congrArg AgentState.panel hst).trans hstands
        | answered panel' out =>
          rw [hc] at hstands
          exact hstands.imp (fun hu => hsub hu) fun hp => (congrArg AgentState.panel hst).trans hp
        | save panel' st' =>
          rw [hc] at hstands
          refine hstands.imp (fun hu => hsub hu) fun hp => ?_
          rw [hst]
          exact hp

/-- **Run.** -/
theorem standing_runs (hrun : Threads.Runs parse q (fun m w => noStaleReset m w = true) w w') (hw : Standing w) :
    Standing w' := by
  induction hrun with
  | refl => exact hw
  | tail _ hstep ih =>
    obtain ⟨m, hok, hfire⟩ := hstep
    exact standing_fire hok hfire ih

theorem standing_boot (file : Option AgentState) (host : Host String R) : Standing (Threads.boot file host) :=
  ⟨fun _ h => absurd h (by simp [Threads.boot, Loop.acting]), trivial⟩

/-- **A successful connect stands.** In every run from the agent's start whose loop makes no stale reset:
    once a connect has answered with success and no other was called, the agent and its file have the
    connect's panel and token, unless that panel said that it does not know the token. -/
theorem connect_stands (parse : String → Option Url) (q : Quick String R) (file : Option AgentState)
    (host : Host String R) (w : Threads R) (panel token : String)
    (hrun : Threads.Runs parse q (fun m w => noStaleReset m w = true) (.boot file host) w)
    (hdone : w.conn = .done panel token) (hknown : (panel, token) ∉ w.unknown) : w.proc.Has panel token := by
  have hstands := (standing_runs hrun (standing_boot file host)).stands
  rw [hdone] at hstands
  exact hstands.resolve_left hknown

/-! ### An enrolled agent moves to a second panel -/

/-- A list of moves that goes through is a run of moves that meet the test. -/
theorem Threads.runs_of_fireAll {ok : Move → Threads R → Bool} {ms : List Move}
    (h : w.fireAll parse q ok ms = some w') : Threads.Runs parse q (fun m w => ok m w = true) w w' := by
  induction ms generalizing w with
  | nil =>
    rw [← Option.some.inj h]
    exact Relation.ReflTransGen.refl
  | cons m ms ih =>
    simp only [Threads.fireAll] at h
    split at h
    · rename_i hok
      obtain ⟨w₁, hfire, hrest⟩ := Option.bind_eq_some_iff.mp h
      exact Relation.ReflTransGen.head ⟨m, hok, hfire⟩ (ih hrest)
    · exact absurd h (by simp)

/-- A host whose interface always comes up. -/
def plainQuick : Quick String Unit := ⟨fun _ _ => ((), true), fun _ _ => ((), true)⟩

/-- An agent that starts with a panel and a token. -/
def resumed : Threads Unit :=
  .boot (some ⟨"priv", "pub", "old", "http://a:3000"⟩) ⟨some "conf", none, ()⟩

/-- A whole connect to panel `b`, which gives the token `new`. -/
def connectB : List Move :=
  [.conn (.request (some "b") (.ok ("eth0", ⟨.ofBytes 192 168 1 0, 24⟩))), .conn (.setPanel (.error "")),
    .conn (.answer (.ok ⟨200, "", .ok ⟨"new", "pending"⟩⟩)), .conn .takeToken, .conn (.save none),
    .conn .startPolling]

/-- The rest of a poll that is answered with 404. -/
def goneMoves : List Move :=
  [.loop (.answer (.ok ⟨404, .error "unknown token"⟩)), .loop .act, .loop .reset, .loop (.save none)]

/-- **The defect.** The loop asks the first panel, the connect to the second goes through, and then the
    first panel's 404 arrives: the second panel's token is gone from the agent and from its file. -/
theorem old_poll_undoes_connect : ∃ w,
    resumed.fireAll (fun _ => some ⟨"http", "b", "b", ""⟩) plainQuick (fun _ _ => true)
      (.loop .read :: connectB ++ goneMoves) = some w ∧
    w.conn = .done "http://b:3000" "new" ∧ ("http://b:3000", "new") ∉ w.unknown ∧
    w.proc.readPoll = ("", "") ∧ w.proc.saved = some ⟨"priv", "pub", "", ""⟩ := by
  have hrun : ((resumed.fireAll (fun _ => some ⟨"http", "b", "b", ""⟩) plainQuick (fun _ _ => true)
      (.loop .read :: connectB ++ goneMoves)).any fun w => (match w.conn with
        | .done panel token => decide (panel = "http://b:3000" ∧ token = "new")
        | _ => false) && decide (("http://b:3000", "new") ∉ w.unknown ∧ w.proc.readPoll = ("", "") ∧
          w.proc.saved = some ⟨"priv", "pub", "", ""⟩)) = true := by decide +kernel
  obtain ⟨w, hw, hcheck⟩ := (Option.any_eq_true _ _).mp hrun
  obtain ⟨hconn, hrest⟩ := (Bool.and_eq_true _ _).mp hcheck
  refine ⟨w, hw, ?_, of_decide_eq_true hrest⟩
  split at hconn
  · rename_i panel token hc
    obtain ⟨rfl, rfl⟩ := of_decide_eq_true hconn
    exact hc
  · exact absurd hconn (by simp)

/-- The same agent, whose poll is answered before the owner connects. -/
theorem connect_stands_after_reset : ∃ w,
    resumed.fireAll (fun _ => some ⟨"http", "b", "b", ""⟩) plainQuick noStaleReset
      (.loop .read :: goneMoves ++ connectB) = some w ∧ w.proc.Has "http://b:3000" "new" := by
  have hrun : ((resumed.fireAll (fun _ => some ⟨"http", "b", "b", ""⟩) plainQuick noStaleReset
      (.loop .read :: goneMoves ++ connectB)).any fun w => (match w.conn with
        | .done panel token => decide (panel = "http://b:3000" ∧ token = "new")
        | _ => false) && decide (("http://b:3000", "new") ∉ w.unknown)) = true := by decide +kernel
  obtain ⟨w, hw, hcheck⟩ := (Option.any_eq_true _ _).mp hrun
  obtain ⟨hconn, hknown⟩ := (Bool.and_eq_true _ _).mp hcheck
  refine ⟨w, hw, ?_⟩
  split at hconn
  · rename_i panel token hc
    obtain ⟨rfl, rfl⟩ := of_decide_eq_true hconn
    exact connect_stands _ _ _ _ w _ _ (Threads.runs_of_fireAll hw) hc (of_decide_eq_true hknown)
  · exact absurd hconn (by simp)

end NodeAgent
end BeautyAwg
