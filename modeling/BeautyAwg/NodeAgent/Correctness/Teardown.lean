import BeautyAwg.Store.Effect
import BeautyAwg.NodeAgent.Poll

/-!
# `NodeAgent.Correctness.Teardown`: when an agent tears its tunnel down

A token is drawn once, so a row that is gone stays gone: an answer that says so is still right when it is
acted on. But the panel answers 404 to every failure of its lookup, and the agent takes a 404 for a deleted
node. `actOk_iff`: a poll meets its contract exactly when that query did not fail.

## Contents
- **Tokens.** `Holds`; `not_holds_call`: no call brings a token back.
- **Invariant.** `Inv`: what a waiting answer says about the database; `inv_runs`.
- **Results.** `teardown_only_when_deleted`, `actOk_iff`.
-/

namespace BeautyAwg
namespace NodeAgent

open Netip Awg Store Api Txn

/-! ## Tokens -/

/-- Some row holds the token. -/
def Holds (t : Tables) (token : String) : Prop := ∃ n ∈ t.nodes, n.enrollToken = some token

/-- A write that gives the token to no row that does not have it. -/
def NoNew (token : String) : Write → Prop
  | .insertNode r => r.enrollToken ≠ some token
  | .updateNode _ f => ∀ r, (f r).enrollToken = some token → r.enrollToken = some token
  | _ => True

section Calls

variable {db db' : Db} {token : String} {op : Op}

/-- A write that brings in no token leaves none that was not there. -/
theorem holds_of_apply {w : Write} (hw : NoNew token w) (h : apply w db = .ok db')
    (ht : Holds db'.toTables token) : Holds db.toTables token := by
  rw [apply_eq_ok] at h
  obtain ⟨n, hn, hnt⟩ := ht
  rw [← h] at hn
  cases w with
  | insertNode r =>
    rcases List.mem_append.mp hn with hn | hn
    · exact ⟨n, hn, hnt⟩
    · rw [List.mem_singleton.mp hn] at hnt
      exact absurd hnt hw
  | updateNode id f =>
    obtain ⟨r, hr, rfl⟩ := List.mem_map.mp hn
    split at hnt
    · exact ⟨r, hr, hw r hnt⟩
    · exact ⟨r, hr, hnt⟩
  | deleteNode id => exact ⟨n, (List.mem_filter.mp hn).1, hnt⟩
  | _ => exact ⟨n, hn, hnt⟩

/-- A transaction of such writes leaves none either. -/
theorem not_holds_run {α : Type} {t : Tx α} {a : α} (ht : AllWrites (NoNew token) t)
    (h : run apply t db = .ok (a, db')) (hnone : ¬ Holds db.toTables token) : ¬ Holds db'.toTables token :=
  run_induction (P := fun c : Db => ¬ Holds c.toTables token)
    (fun _ _ _ hw hc hn hh => hn (holds_of_apply hw hc hh)) ht h hnone

/-- Only an enrolment writes tokens. -/
theorem writes_noNew {w : Write} (hop : drawn op = none) (h : op.Writes w) : NoNew token w := by
  cases h with
  | enrollNode | enrollNode_known | enrollNode_drop | enrollNode_subnet => exact absurd hop (by simp [drawn])
  | createNode a => exact fun hs => absurd hs (by simp [createdNode])
  | ensureHubNode a => exact fun hs => absurd hs (by simp [hubNode])
  | approveNode a => exact fun r hr => hr
  | rejectNode => exact fun r hr => hr
  | renameNode => exact fun r hr => hr
  | setNodeDNS => exact fun r hr => hr
  | setNodeColor => exact fun r hr => hr
  | _ => trivial

/-- An enrolment hands out the token it draws, or the one its node holds already. -/
theorem run_enrollNode {id : Uuid} {newToken name hostname lanIface pubkey : String} {subnets : List Prefix}
    {pick : Nat} {a : String × NodeStatus}
    (h : run apply (enrollNode id newToken name hostname lanIface pubkey subnets pick) db = .ok (a, db')) :
    (a.1 = newToken ∨ Holds db.toTables a.1) ∧
      ∀ token, newToken ≠ token → ¬ Holds db.toTables token → ¬ Holds db'.toTables token := by
  rcases run_enrollNode_ok h with ⟨r, hr, h⟩ | ⟨-, h⟩
  · have hmem := (anyRow_filter hr).1
    have htoken := (derefOr_cases r.enrollToken newToken).symm
    refine ⟨?_, fun token hne hnone => ?_⟩
    · rw [(run_reenrollNode_ok h).1]
      exact htoken.imp_right fun hs => ⟨r, hmem, hs⟩
    · have hother : derefOr r.enrollToken newToken ≠ token := by
        rintro rfl
        exact htoken.elim (fun hs => hne hs.symm) fun hs => hnone ⟨r, hmem, hs⟩
      refine not_holds_run (allWrites_reenrollNode (fun row hrow => ?_) (fun _ => trivial)
        fun _ _ => trivial) h hnone
      exact absurd (Option.some.inj hrow) hother
  · refine ⟨Or.inl (by rw [(run_registerNode_ok h).1]), fun token hne hnone => ?_⟩
    refine not_holds_run (allWrites_registerNode (fun hs => ?_) fun _ _ => trivial) h hnone
    exact hne (Option.some.inj hs)

/-- No call brings a token back, but the one that draws it. -/
theorem not_holds_call (hop : drawn op ≠ some token) (h : run apply op.body db = .ok ((), db'))
    (hnone : ¬ Holds db.toTables token) : ¬ Holds db'.toTables token := by
  by_cases hdrawn : drawn op = none
  · exact not_holds_run ((body_allWrites op).mono fun w hw => writes_noNew hdrawn hw) h hnone
  · cases op with
    | enrollNode id newToken name hostname lanIface pubkey subnets pick =>
      obtain ⟨a, h⟩ := run_discard h
      exact (run_enrollNode h).2 token (fun he => hop (congrArg some he)) hnone
    | _ => exact absurd rfl hdrawn

end Calls

/-! ## Invariant -/

variable {R : Type} {q : Quick String R}

/-- What the panel's lookup says, where it has been made. -/
def LookedOk (t : Tables) (token : String) (found : Except String (Uuid × NodeStatus)) :
    Option Failure → Prop
  | none => (∃ e, found = .error e) → ¬ Holds t token
  | some .lookup => ∃ e, found = .error e
  | some _ => False

/-- What a waiting answer says. -/
def AnswerOk (t : Tables) (token : String) (answer : Except String Response) : Option Failure → Prop
  | none => poll answer = .gone → ¬ Holds t token
  | some .lookup => poll answer = .gone
  | some _ => ∃ e, poll answer = .err e

/-- What a poll under way has been told of its token. -/
def PhaseOk (t : Tables) : Phase → Prop
  | .idle => True
  | .asked _ _ => True
  | .looked token _ found failed => LookedOk t token found failed
  | .answered token _ answer failed => AnswerOk t token answer failed

/-- The token a poll was made with. -/
def Phase.token : Phase → Option String
  | .idle => none
  | .asked token _ => some token
  | .looked token _ _ _ => some token
  | .answered token _ _ _ => some token

/-- Every token that a row or the agent has was issued by the panel. -/
structure Inv (w : World R) : Prop where
  tokens : ∀ token, Holds w.db.toTables token → token ∈ w.issued
  agent : w.agent.st.token ≠ "" → w.agent.st.token ∈ w.issued
  polled : ∀ token ∈ w.phase.token, w.agent.st.token = token ∧ token ≠ ""
  phase : PhaseOk w.db.toTables w.phase

/-- What was said of a token that no row holds stays true. -/
theorem phaseOk_mono {t t' : Tables} {p : Phase}
    (hmono : ∀ token ∈ p.token, ¬ Holds t token → ¬ Holds t' token) (h : PhaseOk t p) : PhaseOk t' p := by
  cases p with
  | idle => trivial
  | asked token priv => trivial
  | looked token priv found failed =>
    rcases failed with - | ⟨- | - | -⟩
    · exact fun he => hmono token rfl (h he)
    all_goals exact h
  | answered token priv answer failed =>
    rcases failed with - | ⟨- | - | -⟩
    · exact fun he => hmono token rfl (h he)
    all_goals exact h

variable {w w' : World R}

/-- What a call does to the world. -/
theorem call_eq {op : Op} (h : w.call op = some w') :
    (∀ token ∈ drawn op, token ∉ w.issued) ∧ run apply op.body w.db = .ok ((), w'.db) ∧
      w'.issued = (drawn op).toList ++ w.issued ∧ w'.agent = w.agent ∧ w'.phase = w.phase := by
  unfold World.call at h
  split at h
  · rename_i hnew
    split at h
    · rename_i db hrun
      obtain rfl := Option.some.inj h
      exact ⟨hnew, hrun, rfl, rfl, rfl⟩
    · exact absurd h (by simp)
  · exact absurd h (by simp)

/-- A request to the panel keeps the invariant. -/
theorem inv_call {op : Op} (hinv : Inv w) (h : w.call op = some w') : Inv w' := by
  obtain ⟨hnew, hrun, hissued, hagent, hphase⟩ := call_eq h
  have hsub : ∀ token ∈ w.issued, token ∈ w'.issued := fun token ht => by
    rw [hissued]
    exact List.mem_append_right _ ht
  have hkeep : ∀ token, (token ∈ w.issued ∨ token ∉ w'.issued) → ¬ Holds w.db.toTables token →
      ¬ Holds w'.db.toTables token := by
    intro token ht
    refine not_holds_call (fun hd => ?_) hrun
    rcases ht with ht | ht
    · exact hnew token hd ht
    · rw [hissued, hd] at ht
      exact ht List.mem_cons_self
  refine ⟨fun token ht => ?_, ?_, ?_, ?_⟩
  · by_contra hout
    exact hkeep token (Or.inr hout) (fun hh => hout (hsub token (hinv.tokens token hh))) ht
  · rw [hagent]
    exact fun hne => hsub _ (hinv.agent hne)
  · rw [hagent, hphase]
    exact hinv.polled
  · rw [hphase]
    refine phaseOk_mono (fun token ht => hkeep token (Or.inl ?_)) hinv.phase
    obtain ⟨rfl, hne⟩ := hinv.polled token ht
    exact hinv.agent hne

/-- The token an enrolment returns has been drawn, by now or earlier. -/
theorem enrollAnswer_issued {op : Op} {token : String} {status : NodeStatus} (hinv : Inv w)
    (hcall : w.call op = some w') (h : enrollAnswer w.db op = some (token, status)) : token ∈ w'.issued := by
  obtain ⟨-, -, hissued, -, -⟩ := call_eq hcall
  rw [hissued]
  cases op with
  | enrollNode id newToken name hostname lanIface pubkey subnets pick =>
    simp only [enrollAnswer] at h
    split at h
    · rename_i db hrun
      obtain rfl := Option.some.inj h
      rcases (run_enrollNode hrun).1 with rfl | hholds
      · exact List.mem_append_left _ List.mem_cons_self
      · exact List.mem_append_right _ (hinv.tokens _ hholds)
    · exact absurd h (by simp)
  | _ => exact absurd h (by simp [enrollAnswer])

theorem connect_phase {fresh : Fresh} {req : ConnectReq} : (w.connect fresh req).phase = w.phase := by
  unfold World.connect
  dsimp only
  split
  · rfl
  · split
    · rename_i hcall _
      exact (call_eq hcall).2.2.2.2
    · rfl

/-- A connect without a token keeps it too. -/
theorem inv_connect {fresh : Fresh} {req : ConnectReq} (hinv : Inv w) (hidle : w.phase = .idle)
    (htoken : w.agent.st.token = "") : Inv (w.connect fresh req) := by
  have hfailed : ∀ st : AgentState, st.token = w.agent.st.token →
      Inv ({ w with agent := { w.agent with st := st } } : World R) := by
    intro st hst
    refine ⟨hinv.tokens, fun hne => absurd (hst.trans htoken) hne, fun token ht => ?_, hinv.phase⟩
    rw [hidle] at ht
    exact absurd ht (by simp [Phase.token])
  unfold World.connect
  dsimp only
  split
  · exact hfailed _ rfl
  · split
    · rename_i op _ _ w₁ token status hcall hanswer
      have hinv₁ := inv_call hinv hcall
      have hissued := enrollAnswer_issued hinv hcall hanswer
      obtain ⟨-, -, -, -, hphase⟩ := call_eq hcall
      refine ⟨hinv₁.tokens, fun _ => hissued, fun t ht => ?_, hinv₁.phase⟩
      rw [hphase, hidle] at ht
      exact absurd ht (by simp [Phase.token])
    · exact hfailed _ rfl

/-- What `NodeByToken` finds is in the tables at that moment. -/
theorem lookedOk_nodeByToken {t : Tables} {token : String} : LookedOk t token (nodeByToken t token) none := by
  rintro ⟨e, he⟩ ⟨n, hn, hnt⟩
  unfold nodeByToken at he
  split at he
  · exact absurd he (by simp)
  · rename_i hnone
    exact absurd (List.find?_eq_none.mp hnone n hn) (by simp [hnt])

/-- The agent takes an answer as a deletion exactly when the lookup failed. -/
theorem poll_handleEnrollPoll {found : Except String (Uuid × NodeStatus)}
    {exported : Except String (Hub × Node × List Prefix)} {update : Option (String × String)} :
    poll (.ok (handleEnrollPoll found exported update)) = .gone ↔ ∃ e, found = .error e := by
  constructor
  · intro h
    cases found with
    | error e => exact ⟨e, rfl⟩
    | ok found =>
      obtain ⟨id, status⟩ := found
      cases exported with
      | error e => cases status <;> exact absurd h (by simp [poll, handleEnrollPoll])
      | ok out => cases status <;> exact absurd h (by simp [poll, handleEnrollPoll])
  · rintro ⟨e, rfl⟩
    rfl

/-- An answer made from a lookup says what the lookup says. -/
theorem answerOk_of_looked {t : Tables} {token : String} {found : Except String (Uuid × NodeStatus)}
    {exported : Except String (Hub × Node × List Prefix)} {update : Option (String × String)}
    {failed : Option Failure} (h : LookedOk t token found failed) :
    AnswerOk t token (.ok (handleEnrollPoll found exported update)) failed := by
  rcases failed with - | ⟨- | - | -⟩
  · exact fun hgone => h (poll_handleEnrollPoll.mp hgone)
  · exact poll_handleEnrollPoll.mpr h
  · exact absurd h id
  · exact absurd h id

/-- A poll that goes on keeps it when its token is the agent's. -/
theorem inv_phase {p : Phase} (hinv : Inv w)
    (htoken : ∀ token ∈ p.token, w.agent.st.token = token ∧ token ≠ "") (hp : PhaseOk w.db.toTables p) :
    Inv ({ w with phase := p } : World R) :=
  ⟨hinv.tokens, hinv.agent, htoken, hp⟩

/-- What the agent keeps of its token when it acts. -/
theorem handle_token {faults : Faults String} {priv : String} {a : Agent R} {r : PollResult} :
    (a.handle q faults priv r).st.token = a.st.token ∨ (a.handle q faults priv r).st.token = "" := by
  cases r with
  | gone => exact Or.inr rfl
  | err e => exact Or.inl rfl
  | ok body =>
    simp only [Agent.handle]
    split
    · split
      · split <;> exact Or.inl rfl
      · exact Or.inl rfl
    · exact Or.inl rfl

/-- **One event** keeps the invariant. -/
theorem inv_fire {e : Event} (hinv : Inv w) (h : w.fire q e = some w') : Inv w' := by
  unfold World.fire at h
  split at h
  · exact inv_call hinv h
  · rename_i hidle
    split at h
    · rename_i htoken
      obtain rfl := Option.some.inj h
      exact inv_connect hinv hidle htoken
    · exact absurd h (by simp)
  · split at h
    · rename_i hne
      obtain rfl := Option.some.inj h
      refine inv_phase hinv (fun token ht => ?_) trivial
      obtain rfl := Option.some.inj ht
      exact ⟨rfl, hne.2⟩
    · exact absurd h (by simp)
  · rename_i token priv hphase
    have hpolled := hinv.polled token (by rw [hphase]; rfl)
    split at h
    · obtain rfl := Option.some.inj h
      exact inv_phase hinv (fun _ ht => Option.some.inj ht ▸ hpolled) ⟨_, rfl⟩
    · obtain rfl := Option.some.inj h
      exact inv_phase hinv (fun _ ht => Option.some.inj ht ▸ hpolled) lookedOk_nodeByToken
  · rename_i token priv found failed hphase
    have hpolled := hinv.polled token (by rw [hphase]; rfl)
    have hlooked : LookedOk w.db.toTables token found failed := by
      have hp := hinv.phase
      rw [hphase] at hp
      exact hp
    have hanswer : ∀ {answer : Except String Response} {failed : Option Failure},
        AnswerOk w.db.toTables token answer failed →
          Inv ({ w with phase := .answered token priv answer failed } : World R) :=
      fun hok => inv_phase hinv (fun _ ht => Option.some.inj ht ▸ hpolled) hok
    split at h
    · split at h
      · split at h
        · obtain rfl := Option.some.inj h
          exact hanswer ⟨_, rfl⟩
        · obtain rfl := Option.some.inj h
          exact hanswer (answerOk_of_looked hlooked)
      · exact absurd h (by simp)
    · obtain rfl := Option.some.inj h
      exact hanswer (answerOk_of_looked hlooked)
  -- the network loses the request or the answer
  · rename_i err token priv hphase
    have hpolled := hinv.polled token (by rw [hphase]; rfl)
    obtain rfl := Option.some.inj h
    exact inv_phase hinv (fun _ ht => Option.some.inj ht ▸ hpolled) ⟨_, rfl⟩
  · rename_i err token priv found failed hphase
    have hpolled := hinv.polled token (by rw [hphase]; rfl)
    obtain rfl := Option.some.inj h
    exact inv_phase hinv (fun _ ht => Option.some.inj ht ▸ hpolled) ⟨_, rfl⟩
  · rename_i err token priv answer failed hphase
    have hpolled := hinv.polled token (by rw [hphase]; rfl)
    obtain rfl := Option.some.inj h
    exact inv_phase hinv (fun _ ht => Option.some.inj ht ▸ hpolled) ⟨_, rfl⟩
  · obtain rfl := Option.some.inj h
    refine ⟨hinv.tokens, fun hne => ?_, fun token ht => absurd ht (by simp [Phase.token]), trivial⟩
    rcases handle_token with heq | hempty
    · rw [heq] at hne ⊢
      exact hinv.agent hne
    · exact absurd hempty hne
  · exact absurd h (by simp)

variable {ok : Event → Prop} {hub : Hub} {secret : String} {host : Host String R}

/-- So it holds wherever a run leads. -/
theorem inv_runs (h : World.Runs q ok (World.init hub secret host) w) : Inv w := by
  induction h with
  | refl =>
    refine ⟨fun token ⟨n, hn, _⟩ => absurd hn (by simp [World.init, Db.boot]), fun hne => absurd rfl hne,
      fun token ht => absurd ht (by simp [World.init, Phase.token]), trivial⟩
  | tail _ hstep ih =>
    obtain ⟨e, -, he⟩ := hstep
    exact inv_fire ih he

/-! ## Results -/

/-- The contract of one poll, when the agent acts on its answer: it tears down and resets only if no row
    holds the token, and a failure leaves the enrolment and the host as they were. -/
def ActOk (q : Quick String R) (w : World R) : Prop :=
  ∀ token priv answer failed faults w', w.phase = .answered token priv answer failed →
    w.fire q (.act faults) = some w' →
      (poll answer = .gone → ¬ Holds w.db.toTables token) ∧
        (failed ≠ none → w'.agent.st = w.agent.st ∧ w'.agent.host = w.agent.host)

theorem fire_act {token priv : String} {answer : Except String Response} {failed : Option Failure}
    {faults : Faults String} (hphase : w.phase = .answered token priv answer failed) :
    w.fire q (.act faults) =
      some { w with agent := w.agent.handle q faults priv (poll answer), phase := .idle } := by
  unfold World.fire
  rw [hphase]

/-- **A poll keeps its contract exactly when its lookup did not fail.** -/
theorem actOk_iff {token priv : String} {answer : Except String Response} {failed : Option Failure}
    (h : World.Runs q ok (World.init hub secret host) w)
    (hphase : w.phase = .answered token priv answer failed) : ActOk q w ↔ failed ≠ some .lookup := by
  have hinv := inv_runs h
  have hp := hinv.phase
  rw [hphase] at hp
  constructor
  · rintro hact rfl
    have hgone : poll answer = .gone := hp
    obtain ⟨-, hkept⟩ := hact token priv answer _ .none _ hphase (fire_act hphase)
    have hst := congrArg AgentState.token (hkept (by simp)).1
    obtain ⟨htoken, hne⟩ := hinv.polled token (by rw [hphase]; rfl)
    rw [hgone] at hst
    exact hne (htoken ▸ hst.symm)
  · intro hfailed token' priv' answer' failed' faults w' hphase' hfire
    obtain ⟨rfl, rfl, rfl, rfl⟩ := Phase.answered.inj (hphase.symm.trans hphase')
    obtain rfl := Option.some.inj ((fire_act hphase).symm.trans hfire)
    rcases failed with - | ⟨- | - | -⟩
    · exact ⟨hp, fun hne => absurd rfl hne⟩
    · exact absurd rfl hfailed
    all_goals
      obtain ⟨e, he⟩ := hp
      rw [he]
      exact ⟨fun hgone => absurd hgone (by simp), fun _ => ⟨rfl, rfl⟩⟩

/-- No query for a token fails. -/
def LookupWorks : Event → Prop
  | .lookup fault => fault = none
  | _ => True

/-- No lookup has failed in the poll. -/
def Phase.LookedUp : Phase → Prop
  | .looked _ _ _ failed => failed ≠ some .lookup
  | .answered _ _ _ failed => failed ≠ some .lookup
  | _ => True

/-- While the look-ups work, no poll holds a failed one. -/
theorem lookedUp_fire {e : Event} (he : LookupWorks e) (hw : w.phase.LookedUp)
    (h : w.fire q e = some w') : w'.phase.LookedUp := by
  have hkeep : ∀ {found failed}, (∃ token priv, w.phase = .looked token priv found failed) →
      failed ≠ some .lookup := by
    rintro found failed ⟨token, priv, hphase⟩
    rw [hphase] at hw
    exact hw
  unfold World.fire at h
  split at h
  · obtain ⟨-, -, -, -, hphase⟩ := call_eq h
    rw [hphase]
    exact hw
  · rename_i hidle
    split at h
    · obtain rfl := Option.some.inj h
      rw [connect_phase]
      exact hw
    · exact absurd h (by simp)
  · split at h
    · obtain rfl := Option.some.inj h
      trivial
    · exact absurd h (by simp)
  · split at h
    · -- the one event that brings a failed look-up
      exact absurd he (by simp [LookupWorks])
    · obtain rfl := Option.some.inj h
      exact fun hf => absurd hf (by simp)
  · rename_i hphase
    split at h
    · split at h
      · split at h
        · obtain rfl := Option.some.inj h
          exact fun hf => absurd hf (by simp)
        · obtain rfl := Option.some.inj h
          exact hkeep ⟨_, _, hphase⟩
      · exact absurd h (by simp)
    · obtain rfl := Option.some.inj h
      exact hkeep ⟨_, _, hphase⟩
  · obtain rfl := Option.some.inj h
    exact fun hf => absurd hf (by simp)
  · obtain rfl := Option.some.inj h
    exact fun hf => absurd hf (by simp)
  · obtain rfl := Option.some.inj h
    exact fun hf => absurd hf (by simp)
  · obtain rfl := Option.some.inj h
    trivial
  · exact absurd h (by simp)

/-- **Teardown.** In every run in which no lookup of a token fails, whatever else fails and whatever the
    panel does meanwhile, the agent tears down only what was deleted, and keeps all of it otherwise. -/
theorem teardown_only_when_deleted (h : World.Runs q LookupWorks (World.init hub secret host) w) :
    ActOk q w := by
  have hlooked : w.phase.LookedUp := by
    induction h with
    | refl => trivial
    | tail _ hstep ih =>
      obtain ⟨e, hok, he⟩ := hstep
      exact lookedUp_fire hok ih he
  intro token priv answer failed faults w' hphase
  have hfailed : failed ≠ some .lookup := by
    rw [hphase] at hlooked
    exact hlooked
  exact (actOk_iff h hphase).mpr hfailed token priv answer failed faults w' hphase

/-! ### Two runs -/

/-- A host of which only the files matter. -/
def fileQuick : Quick String Unit := ⟨fun _ _ => ((), true), fun _ _ => ((), true)⟩

/-- An agent on a host that has a configuration. -/
def demoWorld : World Unit := .init demoHub "" ⟨some "[Interface]\n", none, ()⟩

/-- The node enrols and polls before it is approved. -/
def enrolled : List Event :=
  [.connect demoFresh ⟨"http://panel:3000", "", ⟨"nodepriv", "nodepub"⟩, "pi", "eth0", ⟨.ofBytes 192 168 1 0, 24⟩⟩,
    .ask, .lookup none, .reply [] none none, .act .none, .call (.approveNode 1)]

/-- A list of events that goes through is a run. -/
theorem runs_of_fireAll {es : List Event} (hes : ∀ e ∈ es, ok e) (h : w.fireAll q es = some w') :
    World.Runs q ok w w' := by
  induction es generalizing w with
  | nil =>
    simp only [World.fireAll, Option.some.injEq] at h
    subst h
    exact Relation.ReflTransGen.refl
  | cons e es ih =>
    simp only [World.fireAll, Option.bind_eq_some_iff] at h
    obtain ⟨w₁, h₁, h₂⟩ := h
    exact Relation.ReflTransGen.head ⟨e, hes e List.mem_cons_self, h₁⟩
      (ih (fun e' he' => hes e' (List.mem_cons_of_mem _ he')) h₂)

/-- What failed in a poll that has its answer. -/
def Phase.failure : Phase → Option (Option Failure)
  | .answered _ _ _ failed => some failed
  | _ => none

/-- **The confusion.** One failed lookup, with the node's row still there, and the agent is about to tear
    its tunnel down. -/
theorem teardown_on_failed_lookup : ∃ w, World.Runs fileQuick (fun _ => True) demoWorld w ∧
    Holds w.db.toTables w.agent.st.token ∧ w.agent.host.conf ≠ none ∧ ¬ ActOk fileQuick w := by
  have hrun : (demoWorld.fireAll fileQuick
      (enrolled ++ [.ask, .lookup (some "connection refused"), .reply [] none none])).any
      (fun w => w.db.nodes.any (fun n => n.enrollToken = some w.agent.st.token) && w.agent.host.conf.isSome &&
        w.phase.failure == some (some .lookup)) = true := by decide +kernel
  obtain ⟨w, hw, hstate⟩ := (Option.any_eq_true _ _).mp hrun
  simp only [Bool.and_eq_true, List.any_eq_true, decide_eq_true_eq, beq_iff_eq] at hstate
  obtain ⟨⟨hholds, hconf⟩, hfailed⟩ := hstate
  have hruns : World.Runs fileQuick (fun _ => True) demoWorld w := runs_of_fireAll (fun _ _ => trivial) hw
  refine ⟨w, hruns, hholds, by simpa [Option.isSome_iff_ne_none] using hconf, ?_⟩
  cases hphase : w.phase with
  | answered token priv answer failed =>
    rw [hphase] at hfailed
    rw [actOk_iff hruns hphase, Option.some.inj hfailed]
    exact fun hne => hne rfl
  | idle | asked | looked =>
    rw [hphase] at hfailed
    exact absurd hfailed (by simp [Phase.failure])

/-- The same node after it was deleted. -/
theorem teardown_only_when_deleted_demo : ∃ w : World Unit,
    w.db.nodes = [] ∧ w.agent.host.conf ≠ none ∧ w.phase.failure = some none ∧ ActOk fileQuick w := by
  have hrun : (demoWorld.fireAll fileQuick
      (enrolled ++ [.call (.deleteNode 1), .ask, .lookup none, .reply [] none none])).any
      (fun w => w.db.nodes.isEmpty && w.agent.host.conf.isSome && w.phase.failure == some none) = true := by
    decide +kernel
  obtain ⟨w, hw, hstate⟩ := (Option.any_eq_true _ _).mp hrun
  simp only [Bool.and_eq_true, beq_iff_eq] at hstate
  obtain ⟨⟨hnodes, hconf⟩, hfailed⟩ := hstate
  have hruns : World.Runs fileQuick LookupWorks (World.init demoHub "" demoWorld.agent.host) w := by
    refine runs_of_fireAll (fun e he => ?_) hw
    simp only [enrolled, List.cons_append, List.nil_append, List.mem_cons, List.not_mem_nil, or_false] at he
    rcases he with rfl | rfl | rfl | rfl | rfl | rfl | rfl | rfl | rfl | rfl <;> exact (by simp [LookupWorks])
  exact ⟨w, List.isEmpty_iff.mp hnodes, by simpa [Option.isSome_iff_ne_none] using hconf, hfailed,
    teardown_only_when_deleted hruns⟩

end NodeAgent
end BeautyAwg
