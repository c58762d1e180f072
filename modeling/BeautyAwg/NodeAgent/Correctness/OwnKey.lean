import BeautyAwg.NodeAgent.Correctness.Events
import BeautyAwg.Store.Correctness.Tokens

/-!
# `NodeAgent.Correctness.OwnKey`: an agent applies what was made for its key

The agent draws a key pair once and announces the public half; the panel never sees the private one. What it pushes
later is found by the agent's token, made from the row of that moment and completed by the agent. Between the three
the row can be announced again by others, rejected, or deleted with another in its place: whatever is applied was
made from a row with the agent's public key, and holds the private key to it (`applied_own_key`).

## Contents
- **Rows.** `newId`; `row_origin`: a row is an old one or has a new id; `owner_of_enroll`.
- **The invariant.** `Exported`, `PhaseOwn`, `Own`.
- **Runs.** `own_fire`, `applied_own_key`.
-/

namespace BeautyAwg
namespace NodeAgent

open Netip Awg Store Api Txn
open Replace (replaceAll)

/-! ## Rows -/

/-- The id of the row that a call may add. -/
def newId : Op → Option Uuid
  | .createNode id .. | .enrollNode id .. | .ensureHubNode id => some id
  | _ => none

/-- The id that an event brings in for a row, if it can add one. -/
def Event.newId : Event → Option Uuid
  | .call op => NodeAgent.newId op
  | .connect fresh _ => some fresh.id
  | _ => none

section Rows

variable {t t' : Tables} {op : Op} {n' : NodeRow}

/-- A row after a call is an old one, with a token that it had or that was drawn, or it has the call's new id. -/
theorem row_origin (wf : t.Constraints) (h : Effect op t t') (hn' : n' ∈ t'.nodes) :
    (∃ n ∈ t.nodes, n'.id = n.id ∧ n'.keys = n.keys ∧
      (n'.enrollToken = n.enrollToken ∨ n'.enrollToken = drawn op)) ∨
    newId op = some n'.id ∧ (n'.enrollToken = none ∨ n'.enrollToken = drawn op) := by
  cases nodeFrom_of_effect wf h hn' with
  | kept hn hid hkeys htoken => exact .inl ⟨_, hn, hid, hkeys, .inl htoken⟩
  | @announced id newToken name hostname lanIface pubkey subnets pick n hn =>
    refine .inl ⟨n, hn, rfl, rfl, ?_⟩
    rcases derefOr_cases n.enrollToken newToken with hold | hnew
    · exact .inl hold.symm
    · exact .inr (congrArg some hnew)
  | created => exact .inr ⟨rfl, .inl rfl⟩
  | registered => exact .inr ⟨rfl, .inr rfl⟩
  | hub => exact .inr ⟨rfl, .inl rfl⟩

/-- The token that an announcement returns stands with the announced key only. -/
theorem owner_of_enroll {db db' : Db} {id : Uuid} {new name hostname lanIface pubkey : String} {subnets : List Prefix}
    {pick : Nat} {answer : String × NodeStatus} (hnew : ¬ Holds db.toTables new)
    (h : run apply (enrollNode id new name hostname lanIface pubkey subnets pick) db = .ok (answer, db')) :
    ∀ n' ∈ db'.nodes, n'.enrollToken = some answer.1 → n'.keys.pub = pubkey := by
  have heff : Effect (.enrollNode id new name hostname lanIface pubkey subnets pick) db.toTables db'.toTables :=
    effect_of_run (run_body_enrollNode h)
  intro n' hn' htoken
  cases nodeFrom_of_effect db.wf heff hn' with
  | @kept _ n _ hn hid hkeys hsame =>
    rw [hkeys]
    have hn_token : n.enrollToken = some answer.1 := hsame ▸ htoken
    rcases enrollNode_answer h with ⟨r, hr, hanswer⟩ | ⟨-, hanswer⟩
    · rcases derefOr_cases r.enrollToken new with hold | hdrawn
      · -- a token has one row
        have hmem := (anyRow_filter hr).1
        obtain rfl := node_eq_of_token db.wf hn hmem hn_token (hanswer ▸ hold)
        exact of_decide_eq_true (anyRow_filter hr).2
      · exact absurd ⟨n, hn, by rw [hn_token, hanswer, hdrawn]⟩ hnew
    · exact absurd ⟨n, hn, by rw [hn_token, hanswer]⟩ hnew
  | announced hn hpub => exact hpub
  | registered => rfl

end Rows

/-! ## The invariant -/

variable {R : Type} {q : Quick String R} {start w w' : World R} {past past' : List Event} {id : Uuid}
  {pub config token : String} {pubOf : String → String}

/-- The tables had the property at some moment of the run. -/
def Once (q : Quick String R) (start : World R) (past : List Event) (P : Tables → Prop) : Prop :=
  ∃ es c, es <+: past ∧ start.fireAll q es = some c ∧ P c.db.toTables

/-- The row with this id is approved. -/
def Approved (id : Uuid) (t : Tables) : Prop := ∃ n ∈ t.nodes, n.id = id ∧ n.status = .active

/-- The panel makes this configuration from the row with this id, which has this public key. -/
def Makes (id : Uuid) (pub config : String) (t : Tables) : Prop :=
  ∃ n ∈ t.nodes, n.id = id ∧ n.keys.pub = pub ∧ ∃ hub node reach, reach.Perm (reachSubnets t id) ∧
    NodeAgent.getNodeForExport t id reach = .ok (hub, node, reach) ∧ config = renderNode hub node reach

/-- The configuration was made in this run from a row with the public key, after the row had been approved. -/
def Exported (q : Quick String R) (start : World R) (past : List Event) (pub config : String) : Prop :=
  ∃ id es c, es <+: past ∧ start.fireAll q es = some c ∧ Makes id pub config c.db.toTables ∧
    Once q start es (Approved id)

/-- A moment of a run is one of every longer run. -/
theorem Once.mono {P : Tables → Prop} (hpast : past <+: past') (h : Once q start past P) : Once q start past' P := by
  obtain ⟨es, c, hes, hrun, hP⟩ := h
  exact ⟨es, c, hes.trans hpast, hrun, hP⟩

/-- What was made in a run was made in every longer one. -/
theorem Exported.mono (hpast : past <+: past') (h : Exported q start past pub config) :
    Exported q start past' pub config := by
  obtain ⟨id, es, c, hes, hrest⟩ := h
  exact ⟨id, es, c, hes.trans hpast, hrest⟩

/-- What a poll under way knows of the agent's row. -/
def PhaseOwn (q : Quick String R) (start : World R) (past : List Event) (w : World R) : Phase → Prop
  | .idle => True
  | .asked _ priv => priv = w.agent.st.priv
  | .looked _ priv found _ => priv = w.agent.st.priv ∧ ∀ id status, found = .ok (id, status) →
      id ∈ past.filterMap Event.newId ∧ (∀ n ∈ w.db.nodes, n.id = id → n.keys.pub = w.agent.st.pub) ∧
        (status = .active → Once q start past (Approved id))
  | .answered _ priv answer _ => priv = w.agent.st.priv ∧ ∀ body, poll answer = .ok body → body.config ≠ "" →
      Exported q start past w.agent.st.pub body.config

/-- The invariant of a run: the agent's token stands with its own key only, and so does what it was sent. -/
structure Own (pubOf : String → String) (q : Quick String R) (start : World R) (past : List Event) (w : World R) :
    Prop where
  base : Inv w
  ids : ∀ n ∈ w.db.nodes, n.id ∈ past.filterMap Event.newId
  keys : w.agent.st.priv ≠ "" → w.agent.st.pub = pubOf w.agent.st.priv
  blank : w.agent.st.priv = "" → w.agent.st.token = "" ∧ w.agent.lastApplied = ""
  owner : w.agent.st.token ≠ "" → ∀ n ∈ w.db.nodes, n.enrollToken = some w.agent.st.token →
    n.keys.pub = w.agent.st.pub
  phase : PhaseOwn q start past w w.phase
  applied : w.agent.lastApplied ≠ "" → ∃ config, Exported q start past w.agent.st.pub config ∧
    w.agent.lastApplied = fullConfig config w.agent.st.priv

/-- A poll that goes on changes nothing else. -/
theorem Own.with_phase {e : Event} {p : Phase} (hown : Own pubOf q start past w)
    (hbase : Inv ({ w with phase := p } : World R)) (hp : PhaseOwn q start (past ++ [e]) w p) :
    Own pubOf q start (past ++ [e]) ({ w with phase := p } : World R) where
  base := hbase
  ids n hn := by
    rw [List.filterMap_append]
    exact List.mem_append_left _ (hown.ids n hn)
  keys := hown.keys
  blank := hown.blank
  owner := hown.owner
  phase := by cases p <;> exact hp
  applied hne := by
    obtain ⟨config, hexp, hfull⟩ := hown.applied hne
    exact ⟨config, hexp.mono (List.prefix_append _ _), hfull⟩

/-! ## Runs -/

/-- A store call of anyone, as part of any event. -/
theorem own_call {op : Op} {e : Event} (hid : e.newId = newId op) (hfresh : ((past ++ [e]).filterMap Event.newId).Nodup)
    (hown : Own pubOf q start past w) (h : w.call op = some w') : Own pubOf q start (past ++ [e]) w' := by
  obtain ⟨hnew, hrun, -, hagent, hphase⟩ := call_eq h
  have heff := effect_of_run hrun
  have hgrow : past <+: past ++ [e] := List.prefix_append _ _
  rw [List.filterMap_append] at hfresh
  -- a row with an old id is an old row
  have hold : ∀ n' ∈ w'.db.nodes, n'.id ∈ past.filterMap Event.newId →
      ∃ n ∈ w.db.nodes, n'.id = n.id ∧ n'.keys = n.keys := by
    intro n' hn' hmem
    rcases row_origin w.db.wf heff hn' with ⟨n, hn, hnid, hkeys, -⟩ | ⟨hadd, -⟩
    · exact ⟨n, hn, hnid, hkeys⟩
    · refine absurd rfl ((List.nodup_append.mp hfresh).2.2 n'.id hmem n'.id ?_)
      rw [List.filterMap_cons_some (hid.trans hadd)]
      exact List.mem_cons_self
  constructor
  case base => exact inv_call hown.base h
  case ids =>
    intro n' hn'
    rw [List.filterMap_append]
    rcases row_origin w.db.wf heff hn' with ⟨n, hn, hnid, -, -⟩ | ⟨hadd, -⟩
    · exact List.mem_append_left _ (hnid ▸ hown.ids n hn)
    · refine List.mem_append_right _ ?_
      rw [List.filterMap_cons_some (hid.trans hadd)]
      exact List.mem_cons_self
  case keys => exact hagent ▸ hown.keys
  case blank => exact hagent ▸ hown.blank
  case owner =>
    rw [hagent]
    intro hne n' hn' htoken
    -- the token is drawn already, so this call does not draw it
    have hundrawn : n'.enrollToken ≠ drawn op := by
      intro heq
      exact hnew w.agent.st.token (heq ▸ htoken) (hown.base.agent hne)
    rcases row_origin w.db.wf heff hn' with ⟨n, hn, -, hkeys, hsame | hdrawn⟩ | ⟨-, hnone | hdrawn⟩
    · rw [hkeys]
      exact hown.owner hne n hn (hsame ▸ htoken)
    · exact absurd hdrawn hundrawn
    · exact absurd (hnone.symm.trans htoken) (by simp)
    · exact absurd hdrawn hundrawn
  case phase =>
    have hp := hown.phase
    rw [hphase]
    cases hw : w.phase with
    | idle => trivial
    | asked token priv =>
      rw [hw] at hp
      exact hp.trans (by rw [hagent])
    | looked token priv found failed =>
      rw [hw] at hp
      refine ⟨by rw [hagent]; exact hp.1, fun id status hfound => ?_⟩
      obtain ⟨hmem, hkey, hactive⟩ := hp.2 id status hfound
      refine ⟨?_, fun n' hn' hnid => ?_, fun hs => (hactive hs).mono hgrow⟩
      · rw [List.filterMap_append]
        exact List.mem_append_left _ hmem
      · obtain ⟨n, hn, hsame, hkeys⟩ := hold n' hn' (hnid ▸ hmem)
        rw [hkeys, hagent]
        exact hkey n hn (hsame ▸ hnid)
    | answered token priv answer failed =>
      rw [hw] at hp
      refine ⟨by rw [hagent]; exact hp.1, fun body hbody hne => ?_⟩
      rw [hagent]
      exact (hp.2 body hbody hne).mono hgrow
  case applied =>
    rw [hagent]
    intro hne
    obtain ⟨config, hexp, hfull⟩ := hown.applied hne
    exact ⟨config, hexp.mono hgrow, hfull⟩

/-- What an announcement of the agent changes: nothing, or the agent's keys and panel, with the token that the
    panel's call returned. -/
theorem connect_cases (fresh : Fresh) (req : ConnectReq) {keys : Keypair} (hinv : Inv w)
    (hkeys : keys = if w.agent.st.priv = "" then req.keys else ⟨w.agent.st.priv, w.agent.st.pub⟩) :
    w.connect fresh req = { w with agent := { w.agent with
      st := ⟨keys.priv, keys.pub, w.agent.st.token, req.panel⟩ } } ∨
    ∃ op w₁ token status, newId op = some fresh.id ∧ w.call op = some w₁ ∧
      (∀ n ∈ w₁.db.nodes, n.enrollToken = some token → n.keys.pub = keys.pub) ∧
      w.connect fresh req = { w₁ with agent := { w.agent with
        st := ⟨keys.priv, keys.pub, token, req.panel⟩, status := statusText status } } := by
  unfold World.connect
  dsimp only
  rw [← hkeys]
  split
  · exact .inl rfl
  · rename_i op hop
    split
    · rename_i w₁ token status hcall hanswer
      obtain ⟨subnets, rfl⟩ := handleEnroll_ok hop
      refine .inr ⟨_, w₁, token, status, rfl, hcall, ?_, rfl⟩
      obtain ⟨hnew, hrun, -, -, -⟩ := call_eq hcall
      unfold enrollAnswer at hanswer
      dsimp only at hanswer
      split at hanswer
      · rename_i answer db₁ henroll
        obtain rfl := Option.some.inj hanswer
        have hdb : db₁ = w₁.db := by
          have hbody := (run_body_enrollNode henroll).symm.trans hrun
          exact (Prod.mk.inj (Except.ok.inj hbody)).2
        -- the drawn token is on no row yet, so the row that has it afterwards is the announced key's
        have hunheld : ¬ Holds w.db.toTables fresh.token := fun hh => hnew fresh.token rfl (hinv.tokens _ hh)
        exact hdb ▸ owner_of_enroll hunheld henroll
      · exact absurd hanswer (by simp)
    · exact .inl rfl

/-- A connect keeps the invariant: the token it gets stands with the key it announced. -/
theorem own_connect {fresh : Fresh} {req : ConnectReq} (hown : Own pubOf q start past w) (hidle : w.phase = .idle)
    (htoken : w.agent.st.token = "") (hpair : req.keys.priv ≠ "" ∧ req.keys.pub = pubOf req.keys.priv)
    (hfresh : ((past ++ [Event.connect fresh req]).filterMap Event.newId).Nodup) :
    Own pubOf q start (past ++ [.connect fresh req]) (w.connect fresh req) := by
  obtain ⟨keys, hkeys⟩ : ∃ keys, keys = if w.agent.st.priv = "" then req.keys else
    ⟨w.agent.st.priv, w.agent.st.pub⟩ := ⟨_, rfl⟩
  have hpriv : keys.priv ≠ "" ∧ keys.pub = pubOf keys.priv := by
    rw [hkeys]
    split
    · exact hpair
    · rename_i hset
      exact ⟨hset, hown.keys hset⟩
  -- the keys are the old ones, or nothing has been applied yet
  have happlied : w.agent.lastApplied ≠ "" → keys = ⟨w.agent.st.priv, w.agent.st.pub⟩ := by
    intro hne
    rw [hkeys, if_neg fun hblank => hne (hown.blank hblank).2]
  have hexported : w.agent.lastApplied ≠ "" → ∃ config,
      Exported q start (past ++ [.connect fresh req]) keys.pub config ∧
        w.agent.lastApplied = fullConfig config keys.priv := by
    intro hne
    obtain ⟨config, hexp, hfull⟩ := hown.applied hne
    rw [happlied hne]
    exact ⟨config, hexp.mono (List.prefix_append _ _), hfull⟩
  have hbase : Inv (w.connect fresh req) := inv_connect hown.base hidle htoken
  rcases connect_cases fresh req hown.base hkeys with hw | ⟨op, w₁, token, status, hid, hcall, howner, hw⟩
  · rw [hw] at hbase ⊢
    refine ⟨hbase, fun n hn => ?_, fun _ => hpriv.2, fun hblank => absurd hblank hpriv.1,
      fun hne => absurd htoken hne, ?_, hexported⟩
    · rw [List.filterMap_append]
      exact List.mem_append_left _ (hown.ids n hn)
    · show PhaseOwn q start _ _ w.phase
      rw [hidle]
      trivial
  · rw [hw] at hbase ⊢
    have hadds : Event.newId (.connect fresh req) = newId op := hid.symm
    have hown₁ := own_call hadds hfresh hown hcall
    refine ⟨hbase, hown₁.ids, fun _ => hpriv.2, fun hblank => absurd hblank hpriv.1, fun _ => howner, ?_,
      hexported⟩
    show PhaseOwn q start _ _ w₁.phase
    rw [(call_eq hcall).2.2.2.2, hidle]
    trivial

/-- What the agent keeps and notes when it acts. -/
theorem handle_keys (q : Quick String R) (faults : Faults String) (priv : String) (a : Agent R) (r : PollResult) :
    (a.handle q faults priv r).st.priv = a.st.priv ∧ (a.handle q faults priv r).st.pub = a.st.pub ∧
      ((a.handle q faults priv r).lastApplied = a.lastApplied ∨ (a.handle q faults priv r).lastApplied = "" ∨
        ∃ body, r = .ok body ∧ body.config ≠ "" ∧
          (a.handle q faults priv r).lastApplied = fullConfig body.config priv) := by
  cases r with
  | gone => exact ⟨rfl, rfl, .inr (.inl rfl)⟩
  | err e => exact ⟨rfl, rfl, .inl rfl⟩
  | ok body =>
    simp only [Agent.handle]
    split
    · rename_i hpushed
      split
      · split
        · exact ⟨rfl, rfl, .inr (.inr ⟨body, rfl, hpushed.2, rfl⟩)⟩
        · exact ⟨rfl, rfl, .inl rfl⟩
      · exact ⟨rfl, rfl, .inl rfl⟩
    · exact ⟨rfl, rfl, .inl rfl⟩

/-- The row of a token, as the lookup finds it. -/
theorem nodeByToken_ok {t : Tables} {status : NodeStatus} (h : nodeByToken t token = .ok (id, status)) :
    ∃ n ∈ t.nodes, n.id = id ∧ n.status = status ∧ n.enrollToken = some token := by
  unfold nodeByToken at h
  split at h
  · rename_i n hn
    obtain ⟨rfl, rfl⟩ := Prod.mk.inj (Except.ok.inj h)
    exact ⟨n, List.mem_of_find?_eq_some hn, rfl, rfl, by simpa using List.find?_some hn⟩
  · exact absurd h (by simp)

/-- So does applying an answer, which was made for the agent's key. -/
theorem own_act {faults : Faults String} {priv : String} {answer : Except String Response} {failed : Option Failure}
    (hown : Own pubOf q start past w) (hphase : w.phase = .answered token priv answer failed)
    (hbase : Inv ({ w with agent := w.agent.handle q faults priv (poll answer), phase := .idle } : World R)) :
    Own pubOf q start (past ++ [.act faults])
      ({ w with agent := w.agent.handle q faults priv (poll answer), phase := .idle } : World R) := by
  have hp := hown.phase
  rw [hphase] at hp
  obtain ⟨rfl, hsent⟩ := hp
  obtain ⟨rfl, hpolled⟩ := hown.base.polled token (by rw [hphase]; rfl)
  have hset : w.agent.st.priv ≠ "" := fun hblank => hpolled (hown.blank hblank).1
  have hgrow : past <+: past ++ [.act faults] := List.prefix_append _ _
  obtain ⟨hpriv, hpub, happlied⟩ := handle_keys q faults w.agent.st.priv w.agent (poll answer)
  refine ⟨hbase, fun n hn => ?_, fun _ => ?_, fun hblank => absurd (hpriv.symm.trans hblank) hset,
    fun hne n hn htoken => ?_, trivial, fun hne => ?_⟩
  · rw [List.filterMap_append]
    exact List.mem_append_left _ (hown.ids n hn)
  · rw [hpub, hpriv]
    exact hown.keys hset
  · -- a token that is still there is the old one
    have hkept := handle_token.resolve_right hne
    rw [hpub]
    exact hown.owner hpolled n hn (hkept ▸ htoken)
  · rw [hpub, hpriv]
    rcases happlied with hsame | hblank | ⟨body, hbody, hconfig, hfull⟩
    · obtain ⟨config, hexp, hfull⟩ := hown.applied (hsame ▸ hne)
      exact ⟨config, hexp.mono hgrow, hsame.trans hfull⟩
    · exact absurd hblank hne
    · exact ⟨body.config, (hsent body hbody hconfig).mono hgrow, hfull⟩

/-- **One event** keeps the invariant. -/
theorem own_fire {e : Event} (hbefore : start.fireAll q past = some w) (hown : Own pubOf q start past w)
    (hpair : ∀ fresh req, e = .connect fresh req → req.keys.priv ≠ "" ∧ req.keys.pub = pubOf req.keys.priv)
    (hfresh : ((past ++ [e]).filterMap Event.newId).Nodup) (h : w.fire q e = some w') :
    Own pubOf q start (past ++ [e]) w' := by
  have hbase := inv_fire hown.base h
  have hgrow : past <+: past ++ [e] := List.prefix_append _ _
  have hp := hown.phase
  cases fires_of_fire h with
  | call hcall => exact own_call rfl hfresh hown hcall
  | @connect fresh req hidle htoken => exact own_connect hown hidle htoken (hpair fresh req rfl) hfresh
  | ask hidle hset => exact hown.with_phase hbase rfl
  | lookupFails hphase =>
    rw [hphase] at hp
    exact hown.with_phase hbase ⟨hp, fun _ _ hfound => absurd hfound (by simp)⟩
  | lookup hphase =>
    rw [hphase] at hp
    refine hown.with_phase hbase ⟨hp, fun id status hfound => ?_⟩
    -- the row that is found has the agent's token, and so its key; an active one is approved at this moment
    obtain ⟨n, hn, rfl, rfl, htoken⟩ := nodeByToken_ok hfound
    obtain ⟨rfl, hne⟩ := hown.base.polled _ (by rw [hphase]; rfl)
    have hkey := hown.owner hne n hn htoken
    refine ⟨?_, fun m hm hid => ?_, fun hactive => ⟨past, w, hgrow, hbefore, n, hn, rfl, hactive⟩⟩
    · rw [List.filterMap_append]
      exact List.mem_append_left _ (hown.ids n hn)
    · rw [node_eq_of_id w.db.wf hm hn hid]
      exact hkey
  | exportFails hphase =>
    rw [hphase] at hp
    refine hown.with_phase hbase ⟨hp.1, fun body hbody hne => ?_⟩
    obtain ⟨_, _, _, _, -, hout, -⟩ := body_of_answer hbody hne
    exact absurd hout (by simp)
  | @reply token priv id failed reach update hphase hreach =>
    rw [hphase] at hp
    refine hown.with_phase hbase ⟨hp.1, fun body hbody hne => ?_⟩
    obtain ⟨_, hub, node, reach', -, hout, hconfig⟩ := body_of_answer hbody hne
    -- the row found before is the one that the answer is made from, whatever came between
    obtain ⟨-, hkey, hactive⟩ := hp.2 id .active rfl
    obtain ⟨n, hn, hnid, hsame⟩ : ∃ n ∈ w.db.nodes, n.id = id ∧ reach' = reach := by
      unfold NodeAgent.getNodeForExport at hout
      split at hout
      · exact absurd hout (by simp)
      · rename_i n hn
        split at hout
        · exact absurd hout (by simp)
        · obtain ⟨-, -, rfl⟩ := Prod.mk.inj (Except.ok.inj hout)
          exact ⟨n, List.mem_of_find?_eq_some hn, by simpa using List.find?_some hn, rfl⟩
    subst hsame
    exact ⟨id, past, w, hgrow, hbefore, ⟨n, hn, hnid, hkey n hn hnid, hub, node, _, hreach, hout, hconfig⟩,
      hactive rfl⟩
  | replyNothing hphase hnot =>
    rw [hphase] at hp
    refine hown.with_phase hbase ⟨hp.1, fun body hbody hne => ?_⟩
    obtain ⟨id, _, _, _, hfound, -, -⟩ := body_of_answer hbody hne
    exact absurd hfound (hnot id)
  | @drop token priv err hphase =>
    have hpriv : priv = w.agent.st.priv := by
      rcases waits_cases hphase with hw | ⟨_, _, hw⟩ | ⟨_, _, hw⟩ <;> rw [hw] at hp
      · exact hp
      · exact hp.1
      · exact hp.1
    exact hown.with_phase hbase ⟨hpriv, fun body hbody => absurd hbody (by simp [poll])⟩
  | act hphase => exact own_act hown hphase hbase

/-- **An agent applies what was made for its key.** In every run of store calls, announcements and polls, whatever
    fails, the configuration that the agent has applied was made from a row with the agent's public key, which had
    been approved, and holds the agent's private key. -/
theorem applied_own_key (pubOf : String → String) {hub : Hub} {secret : String} {host : Host String R} {es : List Event}
    (hpair : ∀ fresh req, .connect fresh req ∈ es → req.keys.priv ≠ "" ∧ req.keys.pub = pubOf req.keys.priv)
    (hfresh : (es.filterMap Event.newId).Nodup) (hrun : (World.init hub secret host).fireAll q es = some w)
    (happlied : w.agent.lastApplied ≠ "") :
    ∃ config, Exported q (World.init hub secret host) es (pubOf w.agent.st.priv) config ∧
      w.agent.lastApplied = fullConfig config w.agent.st.priv := by
  have hown : Own pubOf q (World.init hub secret host) es w := by
    refine fireAll_induction (fun past e w w' hpast hbefore hown he => ?_) ?_ hrun
    · obtain ⟨rest, rfl⟩ := hpast
      refine own_fire hbefore hown (fun fresh req hconnect => hpair fresh req (by simp [hconnect])) ?_ he
      rw [List.filterMap_append] at hfresh
      exact (List.nodup_append.mp hfresh).1
    · have hstart : World.Runs q (fun _ => True) (World.init hub secret host) (World.init hub secret host) := .refl
      exact ⟨inv_runs hstart, fun n hn => absurd hn (by simp [World.init, Db.boot]),
        fun hne => absurd rfl hne, fun _ => ⟨rfl, rfl⟩, fun hne => absurd rfl hne, trivial,
        fun hne => absurd rfl hne⟩
  obtain ⟨config, hexp, hfull⟩ := hown.applied happlied
  have hset : w.agent.st.priv ≠ "" := fun hblank => happlied (hown.blank hblank).2
  exact ⟨config, hown.keys hset ▸ hexp, hfull⟩

/-! ### A run -/

/-- A completed config is not empty. -/
theorem fullConfig_ne_empty {priv : String} (hconfig : config ≠ "") (hpriv : priv ≠ "") :
    fullConfig config priv ≠ "" := by
  intro h
  have hchars : replaceAll nodePrivatePlaceholder.toList priv.toList 0 config.toList = [] :=
    String.ofList_injective h
  cases hcs : config.toList with
  | nil => exact hconfig (String.toList_injective hcs)
  | cons c cs =>
    rw [hcs, replaceAll] at hchars
    split at hchars
    · exact hpriv (String.toList_injective (List.append_eq_nil_iff.mp hchars).1)
    · exact absurd hchars (by simp)

/-- An agent that has applied nothing applies the file it is sent. -/
theorem applied_of_body {a : Agent Unit} {priv : String} {body : PollBody} (hactive : body.status = "active")
    (hconfig : body.config ≠ "") (hpriv : priv ≠ "") (hblank : a.lastApplied = "") :
    (a.handle fileQuick .none priv (.ok body)).lastApplied = fullConfig body.config priv := by
  have hfull : fullConfig body.config priv ≠ "" := fullConfig_ne_empty hconfig hpriv
  simp only [Agent.handle, hactive, hconfig, ne_eq, not_false_eq_true, and_self, if_true, hblank, hfull]
  rfl

/-- What the agent is about to act on: the key it polled with, and the body it got. -/
def Phase.sent : Phase → Option (String × PollBody)
  | .answered _ priv answer _ =>
    match poll answer with
    | .ok body => some (priv, body)
    | _ => none
  | _ => none

/-- A body that was sent is what an answered poll holds. -/
theorem sent_eq_some {p : Phase} {priv : String} {body : PollBody} (h : p.sent = some (priv, body)) :
    ∃ token answer failed, p = .answered token priv answer failed ∧ poll answer = .ok body := by
  cases p with
  | answered token priv' answer failed =>
    simp only [Phase.sent] at h
    split at h
    · rename_i hpoll
      obtain ⟨rfl, rfl⟩ := Prod.mk.inj (Option.some.inj h)
      exact ⟨_, _, _, rfl, hpoll⟩
    · exact absurd h (by simp)
  | idle | asked | looked => exact absurd h (by simp [Phase.sent])

/-- The node polls before and after it is approved, and another node enrols between. -/
def twoHomes : List Event :=
  enrolled ++ [.ask, .lookup none,
    .call (.enrollNode 2 "token2" "pi2" "pi2" "eth0" "nodepub2" [⟨.ofBytes 192 168 2 0, 24⟩] 0), .call (.approveNode 2),
    .reply [] none none]

/-- Another node enrols and is approved between the queries of a poll; what is applied is the agent's own file. -/
theorem applied_own_key_home : ∃ w : World Unit, w.agent.st.priv = "nodepriv" ∧ ∃ config,
    demoWorld.fireAll fileQuick (twoHomes ++ [.act .none]) = some w ∧
      Exported fileQuick demoWorld (twoHomes ++ [.act .none]) "nodepub" config ∧
      w.agent.lastApplied = fullConfig config "nodepriv" := by
  -- the answer has a configuration, which the agent is about to apply
  have hrun : (demoWorld.fireAll fileQuick twoHomes).any (fun w =>
      w.agent.st.priv == "nodepriv" && w.agent.lastApplied == "" && w.phase.sent.any fun p =>
        p.1 == "nodepriv" && p.2.status == "active" && p.2.config != "") = true := by decide +kernel
  obtain ⟨w, hw, hstate⟩ := (Option.any_eq_true _ _).mp hrun
  simp only [Bool.and_eq_true, beq_iff_eq, bne_iff_ne, Option.any_eq_true, Prod.exists] at hstate
  obtain ⟨⟨hpriv, hblank⟩, _, body, hsent, ⟨rfl, hactive⟩, hconfig⟩ := hstate
  obtain ⟨token, answer, failed, hanswered, hpoll⟩ := sent_eq_some hsent
  have hlast : demoWorld.fireAll fileQuick (twoHomes ++ [.act .none]) = some { w with
      agent := w.agent.handle fileQuick .none "nodepriv" (.ok body)
      phase := .idle } := by
    rw [fireAll_concat, hw, ← hpoll]
    exact fire_act hanswered
  have happlied : (w.agent.handle fileQuick .none "nodepriv" (.ok body)).lastApplied ≠ "" := by
    rw [applied_of_body hactive hconfig (by decide) hblank]
    exact fullConfig_ne_empty hconfig (by decide)
  have hkept : (w.agent.handle fileQuick .none "nodepriv" (.ok body)).st.priv = "nodepriv" :=
    (handle_keys _ _ _ _ _).1.trans hpriv
  have hpair : ∀ fresh req, .connect fresh req ∈ twoHomes ++ [.act .none] →
      req.keys.priv ≠ "" ∧ req.keys.pub = (fun _ => "nodepub") req.keys.priv := by
    intro fresh req hmem
    simp only [twoHomes, enrolled, List.cons_append, List.nil_append, List.mem_cons, List.not_mem_nil, reduceCtorEq,
      or_false, Event.connect.injEq] at hmem
    obtain ⟨-, rfl⟩ := hmem
    exact ⟨by decide, rfl⟩
  have hfresh : ((twoHomes ++ [Event.act .none]).filterMap Event.newId).Nodup := by decide
  obtain ⟨config, hexp, hown⟩ := applied_own_key (fun _ => "nodepub") hpair hfresh hlast happlied
  refine ⟨_, hkept, config, hlast, hexp, ?_⟩
  rw [hown]
  exact congrArg (fullConfig config) hkept

end NodeAgent
end BeautyAwg
