import BeautyAwg.NodeAgent.Correctness.OwnKey
import BeautyAwg.Store.EnrollCalls
import BeautyAwg.Store.Correctness.Tokens

/-!
# `NodeAgent.Correctness.Undisturbed`: what restarts a home's tunnel

The agent takes its interface down and up whenever the configuration it is sent differs from the one it applied. A
node's file is made from a few columns of its row, the hub's row, and the subnets of the locations it is linked to.
So of all the store's calls only those that are about the node, its links or its linked locations (`Concerns`) can
make the agent touch its host (`undisturbed`), as long as the database returns the linked subnets in one order.

## Contents
- **Calls.** `Concerns`; `file_kept`: any other call leaves the node's file as it is.
- **Runs.** `Calm`, `calm_fire`; `Elsewhere`, `undisturbed`.
- **A second home is announced.** `fireAll_wholePoll`: a poll in which nothing fails.
-/

namespace BeautyAwg
namespace NodeAgent

open Netip Awg Store Api Txn

/-! ## Calls -/

/-- The location is linked to the node, in one direction or the other. -/
def LinkedTo (t : Tables) (id other : Uuid) : Prop :=
  ∃ l ∈ t.links, l.src = id ∧ l.dst = other ∨ l.src = other ∧ l.dst = id

/-- The calls that can change the node's file. -/
def Concerns (t : Tables) (id : Uuid) : Op → Prop
  | .approveNode node => node = id
  | .deleteNode node => node = id ∨ LinkedTo t id node
  | .enrollNode _ _ _ _ _ pubkey _ _ => ∃ m ∈ t.nodes, m.keys.pub = pubkey ∧ (m.id = id ∨ LinkedTo t id m.id)
  | .setNodeLink src dst => src = id ∨ dst = id
  | .deleteNodeLink src dst => src = id ∨ dst = id
  | _ => False

/-- Two states of a row that a poll finds alike and that print one file. -/
structure SameFile (r r' : NodeRow) : Prop where
  id : r'.id = r.id
  address : r'.address = r.address
  lanIface : r'.lanIface = r.lanIface
  keys : r'.keys = r.keys
  preshared : r'.preshared = r.preshared
  token : r'.enrollToken = r.enrollToken

section Tables

variable {t t' : Tables} {op : Op} {id : Uuid} {r : NodeRow} {reach : List Prefix}

theorem SameFile.refl (r : NodeRow) : SameFile r r := ⟨rfl, rfl, rfl, rfl, rfl, rfl⟩

/-- An edit of a row that keeps what its file is made of. -/
theorem row_edited {node : Uuid} {f : NodeRow → NodeRow} (hr : r ∈ t.nodes) (hf : r.id = node → SameFile r (f r)) :
    ∃ r' ∈ (t.editNode node f).nodes, SameFile r r' := by
  refine ⟨_, List.mem_map_of_mem hr, ?_⟩
  split
  · rename_i hid
    exact hf hid
  · exact .refl r

/-- The node's row stays, but for what is not in its file. -/
theorem row_kept (h : Effect op t t') (hfar : ¬ Concerns t id op) (hr : r ∈ t.nodes) (hid : r.id = id) :
    ∃ r' ∈ t'.nodes, SameFile r r' := by
  cases h with
  | createNode | registered | hubCreated => exact ⟨r, List.mem_append_left _ hr, .refl r⟩
  | @reenrolled _ _ newToken _ _ _ pubkey _ _ m hm =>
    refine row_edited hr fun he => absurd ?_ hfar
    refine ⟨m, (anyRow_filter hm).1, by simpa using (anyRow_filter hm).2, .inl (he.symm.trans hid)⟩
  | approved => exact row_edited hr fun he => absurd (he.symm.trans hid) hfar
  | rejected | renamedNode | nodeDNS | nodeColor => exact row_edited hr fun _ => ⟨rfl, rfl, rfl, rfl, rfl, rfl⟩
  | @deletedNode _ node =>
    refine ⟨r, List.mem_filter.mpr ⟨hr, decide_eq_true fun he => hfar (.inl ?_)⟩, .refl r⟩
    exact he.symm.trans hid
  | _ => exact ⟨r, hr, .refl r⟩

/-- No call changes the hub's own row. -/
theorem hub_kept (h : Effect op t t') : t'.hub = t.hub := by cases h <;> rfl

/-- The list of linked subnets depends on the node's links and the subnets behind them alone. -/
theorem reachSubnets_congr
    (hlinks : (t'.links.filter fun l => l.src = id ∨ l.dst = id) = t.links.filter fun l => l.src = id ∨ l.dst = id)
    (hsubnets : ∀ m, LinkedTo t id m → t'.subnetsOf m = t.subnetsOf m) : reachSubnets t' id = reachSubnets t id := by
  unfold reachSubnets
  rw [hlinks]
  congr 1
  refine List.flatMap_congr fun l hl => hsubnets _ ?_
  obtain ⟨hl, hend⟩ := List.mem_filter.mp hl
  split
  · rename_i hsrc
    exact ⟨l, hl, .inl ⟨hsrc, rfl⟩⟩
  · rename_i hsrc
    exact ⟨l, hl, .inr ⟨rfl, (of_decide_eq_true hend).resolve_left hsrc⟩⟩

/-- A linked location has a row, so a new row is not its. -/
theorem linked_ne {m : NodeRow} {other : Uuid} (wf : t.Constraints)
    (hnodup : ((t.nodes ++ [m]).map NodeRow.id).Nodup) (h : LinkedTo t id other) : other ≠ m.id := by
  have hrow : other ∈ t.nodes.map NodeRow.id := by
    obtain ⟨l, hl, ⟨-, rfl⟩ | ⟨rfl, -⟩⟩ := h
    · exact wf.links_dst_fkey l hl
    · exact wf.links_src_fkey l hl
  obtain ⟨n, hn, rfl⟩ := List.mem_map.mp hrow
  exact nodup_append_ne hnodup hn

/-- A new row has no links, so no other node's list changes. -/
theorem reach_added {m : NodeRow} {lans : List Prefix} (wf : t.Constraints)
    (hnodup : ((t.nodes ++ [m]).map NodeRow.id).Nodup) (hlinks : t'.links = t.links)
    (hsubnets : t'.subnets = t.subnets ++ lans.map (SubnetRow.mk m.id)) : reachSubnets t' id = reachSubnets t id := by
  refine reachSubnets_congr (by rw [hlinks]) fun other hother => ?_
  rw [subnetsOf_added hsubnets, if_neg (linked_ne wf hnodup hother), List.append_nil]

/-- The linked locations and their subnets stay. -/
theorem reach_kept (wf : t.Constraints) (wf' : t'.Constraints) (h : Effect op t t') (hfar : ¬ Concerns t id op) :
    reachSubnets t' id = reachSubnets t id := by
  cases h with
  | createNode => exact reach_added wf wf'.nodes_pkey rfl rfl
  | registered => exact reach_added wf wf'.nodes_pkey rfl rfl
  | @hubCreated _ node =>
    have hsubnets : t.subnets ++ [⟨node, ⟨.v4 0, 0⟩⟩] = t.subnets ++ [⟨.v4 0, 0⟩].map (SubnetRow.mk node) := rfl
    exact reach_added wf wf'.nodes_pkey rfl hsubnets
  | @reenrolled _ _ newToken _ _ _ pubkey _ _ m hm =>
    refine reachSubnets_congr rfl fun other hother => ?_
    -- an announcement of the row, or of one linked to it, would concern it
    rw [subnetsOf_replaced rfl, if_neg]
    rintro ⟨rfl, -⟩
    exact hfar ⟨m, (anyRow_filter hm).1, by simpa using (anyRow_filter hm).2, .inr hother⟩
  | @deletedNode _ node =>
    have hnot : ∀ other, LinkedTo t id other → other ≠ node := fun other hother he => hfar (.inr (he ▸ hother))
    -- with another row go its own links and subnets, none of them this row's
    refine reachSubnets_congr ?_ fun other hother => ?_
    · simp only [Write.eval, List.filter_filter]
      refine List.filter_congr fun l hl => ?_
      by_cases hend : l.src = id ∨ l.dst = id
      · have hsrc : l.src ≠ node := by
          rcases hend with hsrc | hdst
          · exact fun he => hfar (.inl (he.symm.trans hsrc))
          · exact hnot _ ⟨l, hl, .inr ⟨rfl, hdst⟩⟩
        have hdst : l.dst ≠ node := by
          rcases hend with hsrc | hdst
          · exact hnot _ ⟨l, hl, .inl ⟨hsrc, rfl⟩⟩
          · exact fun he => hfar (.inl (he.symm.trans hdst))
        simp [hend, hsrc, hdst]
      · simp [hend]
    · rw [subnetsOf_dropped rfl, if_neg (hnot other hother)]
  | @linked _ src dst =>
    refine reachSubnets_congr ?_ fun _ _ => rfl
    simp only [Write.eval]
    split
    · rfl
    · -- the new link has neither end here
      have hnone : ([⟨src, dst⟩] : List LinkRow).filter (fun l => l.src = id ∨ l.dst = id) = [] :=
        List.filter_eq_nil_iff.mpr fun l hl => by
          rw [List.mem_singleton.mp hl]
          simpa [Concerns] using hfar
      rw [List.filter_append, hnone, List.append_nil]
  | @unlinked _ src dst =>
    refine reachSubnets_congr ?_ fun _ _ => rfl
    simp only [Write.eval, wf.links_pkey.erase_eq_filter, List.filter_filter]
    refine List.filter_congr fun l _ => ?_
    by_cases hl : l = ⟨src, dst⟩
    · subst hl
      have hnot : ¬ (src = id ∨ dst = id) := hfar
      simp [hnot]
    · simp [hl]
  | _ => rfl

/-- What the panel pushes to the node, when the linked subnets come in this order. -/
def Pushes (t : Tables) (id : Uuid) (reach : List Prefix) (file : String) : Prop :=
  ∃ hub node, NodeAgent.getNodeForExport t id reach = .ok (hub, node, reach) ∧ renderNode hub node reach = file

/-- The panel pushes the one file that the node's row, its subnets and its links make. -/
theorem pushes_iff {file : String} (wf : t.Constraints) (hr : r ∈ t.nodes) (hid : r.id = id) :
    Pushes t id reach file ↔ ∃ a, r.address = some a ∧
      renderNode t.hub ⟨r.name, a, t.subnetsOf id, r.keys, r.lanIface, r.preshared, false, "", []⟩ reach = file := by
  have hfind : t.nodes.find? (fun n => n.id = id) = some r := by
    cases hfind : t.nodes.find? fun n => n.id = id with
    | none => exact absurd (decide_eq_true hid) (List.find?_eq_none.mp hfind r hr)
    | some n =>
      have hfound := List.find?_some hfind
      rw [node_eq_of_id wf (List.mem_of_find?_eq_some hfind) hr ((of_decide_eq_true hfound).trans hid.symm)]
  unfold Pushes NodeAgent.getNodeForExport
  rw [hfind]
  dsimp only
  cases r.address with
  | none => simp
  | some a =>
    constructor
    · rintro ⟨hub, node, hout, hfile⟩
      obtain ⟨rfl, hrest⟩ := Prod.mk.inj (Except.ok.inj hout)
      obtain ⟨rfl, -⟩ := Prod.mk.inj hrest
      exact ⟨a, rfl, hfile⟩
    · rintro ⟨a', ha, hfile⟩
      obtain rfl := Option.some.inj ha
      exact ⟨_, _, rfl, hfile⟩

/-- The file depends on the row's address, keys and interface alone. -/
theorem renderNode_congr {hub : Hub} {n n' : Node} (haddr : n.address = n'.address) (hkeys : n.keys = n'.keys)
    (hiface : n.lanIface = n'.lanIface) (hpreshared : n.preshared = n'.preshared) :
    renderNode hub n reach = renderNode hub n' reach := by
  unfold renderNode
  rw [nodeHooks_congr hiface haddr, haddr, hkeys, hpreshared]

/-- **A call that does not concern the node** leaves what it is sent as it is. -/
theorem file_kept {file : String} (wf : t.Constraints) (wf' : t'.Constraints) (h : Effect op t t')
    (hfar : ¬ Concerns t id op) (hr : r ∈ t.nodes) (hid : r.id = id) (hfile : Pushes t id reach file) :
    ∃ r' ∈ t'.nodes, SameFile r r' ∧ Pushes t' id reach file := by
  obtain ⟨r', hr', hsame⟩ := row_kept h hfar hr hid
  obtain ⟨a, ha, hfile⟩ := (pushes_iff wf hr hid).mp hfile
  refine ⟨r', hr', hsame, (pushes_iff wf' hr' (hsame.id.trans hid)).mpr ⟨a, hsame.address.trans ha, ?_⟩⟩
  rw [hub_kept h, ← hfile]
  exact renderNode_congr rfl hsame.keys hsame.lanIface hsame.preshared

end Tables

/-! ## Runs -/

variable {R : Type} {q : Quick String R} {w w' : World R} {id : Uuid} {reach : List Prefix} {file : String}
  {st : AgentState} {e : Event}

/-- What a poll under way will tell the agent: the node is there, and it is sent this file or none. -/
def PhaseCalm (id : Uuid) (file : String) (st : AgentState) : Phase → Prop
  | .idle => True
  | .asked _ priv => priv = st.priv
  | .looked _ priv found _ => priv = st.priv ∧ ∃ status, found = .ok (id, status)
  | .answered _ priv answer _ => priv = st.priv ∧ poll answer ≠ .gone ∧
      ∀ body, poll answer = .ok body → body.config ≠ "" → body.config = file

/-- The agent has applied the file that the panel has for its node. -/
structure Calm (id : Uuid) (reach : List Prefix) (file : String) (st : AgentState) (host : Host String R)
    (w : World R) : Prop where
  base : Inv w
  row : ∃ r ∈ w.db.nodes, r.id = id ∧ r.enrollToken = some st.token
  pushes : Pushes w.db.toTables id reach file
  linked : reach.Perm (reachSubnets w.db.toTables id)
  state : w.agent.st = st
  applied : w.agent.lastApplied = fullConfig file st.priv
  host : w.agent.host = host
  phase : PhaseCalm id file st w.phase

/-- What may happen without touching the agent's host. -/
def Elsewhere (id : Uuid) (reach : List Prefix) (w : World R) : Event → Prop
  | .call op => ¬ Concerns w.db.toTables id op
  | .lookup fault => fault = none
  | .reply reach' fault _ => fault = none → reach' = reach
  | _ => True

theorem Calm.with_phase {host : Host String R} {p : Phase} (hcalm : Calm id reach file st host w)
    (hbase : Inv ({ w with phase := p } : World R)) (hp : PhaseCalm id file st p) :
    Calm id reach file st host ({ w with phase := p } : World R) :=
  ⟨hbase, hcalm.row, hcalm.pushes, hcalm.linked, hcalm.state, hcalm.applied, hcalm.host, hp⟩

/-- A request that does not concern the node leaves everything about it as it was. -/
theorem calm_call {host : Host String R} {op : Op} (hcalm : Calm id reach file st host w)
    (hfar : ¬ Concerns w.db.toTables id op) (h : w.call op = some w') : Calm id reach file st host w' := by
  obtain ⟨-, hrun, -, hagent, hphase⟩ := call_eq h
  have heff := effect_of_run hrun
  obtain ⟨r, hr, hid, htoken⟩ := hcalm.row
  obtain ⟨r', hr', hsame, hpushes⟩ := file_kept w.db.wf w'.db.wf heff hfar hr hid hcalm.pushes
  refine ⟨inv_call hcalm.base h, ⟨r', hr', hsame.id.trans hid, hsame.token.trans htoken⟩, hpushes, ?_, ?_, ?_, ?_, ?_⟩
  · rw [reach_kept w.db.wf w'.db.wf heff hfar]
    exact hcalm.linked
  · rw [hagent]
    exact hcalm.state
  · rw [hagent]
    exact hcalm.applied
  · rw [hagent]
    exact hcalm.host
  · rw [hphase]
    exact hcalm.phase

/-- The row of a token is the one that is found. -/
theorem nodeByToken_held {t : Tables} {r : NodeRow} {token : String} (wf : t.Constraints) (hr : r ∈ t.nodes)
    (htoken : r.enrollToken = some token) : nodeByToken t token = .ok (r.id, r.status) := by
  unfold nodeByToken
  cases hfind : t.nodes.find? fun n => n.enrollToken = some token with
  | none => exact absurd (decide_eq_true htoken) (List.find?_eq_none.mp hfind r hr)
  | some n =>
    have hfound := List.find?_some hfind
    rw [node_eq_of_token wf (List.mem_of_find?_eq_some hfind) hr (of_decide_eq_true hfound) htoken]

theorem handle_st {faults : Faults String} {priv : String} {a : Agent R} {body : PollBody} :
    (a.handle q faults priv (.ok body)).st = a.st := by
  simp only [Agent.handle]
  split
  · split
    · split <;> rfl
    · rfl
  · rfl

/-- An agent that is sent what it has applied does nothing. -/
theorem handle_same (faults : Faults String) {priv : String} {a : Agent R} {r : PollResult} (hgone : r ≠ .gone)
    (hsame : ∀ body, r = .ok body → body.config ≠ "" → fullConfig body.config priv = a.lastApplied) :
    (a.handle q faults priv r).st = a.st ∧ (a.handle q faults priv r).lastApplied = a.lastApplied ∧
      (a.handle q faults priv r).host = a.host := by
  cases r with
  | gone => exact absurd rfl hgone
  | err e => exact ⟨rfl, rfl, rfl⟩
  | ok body =>
    simp only [Agent.handle]
    split
    · rename_i hpushed
      rw [if_neg (not_not.mpr (hsame body rfl hpushed.2))]
      exact ⟨rfl, rfl, rfl⟩
    · exact ⟨rfl, rfl, rfl⟩

/-- **One event** elsewhere. -/
theorem calm_fire {host : Host String R} (htoken : st.token ≠ "") (hcalm : Calm id reach file st host w)
    (hfar : Elsewhere id reach w e) (h : w.fire q e = some w') : Calm id reach file st host w' := by
  have hbase := inv_fire hcalm.base h
  have hp := hcalm.phase
  cases fires_of_fire h with
  | call hcall => exact calm_call hcalm hfar hcall
  | connect hidle hblank => exact absurd (hcalm.state ▸ hblank) htoken
  | ask => exact hcalm.with_phase hbase (congrArg AgentState.priv hcalm.state)
  | lookupFails => exact absurd hfar (by simp [Elsewhere])
  | @lookup token priv hphase =>
    rw [hphase] at hp
    obtain ⟨rfl, -⟩ := hcalm.base.polled token (by rw [hphase]; rfl)
    refine hcalm.with_phase hbase ⟨hp, ?_⟩
    -- the token is the node's, so the lookup finds it
    obtain ⟨r, hr, hid, hheld⟩ := hcalm.row
    rw [hcalm.state, nodeByToken_held w.db.wf hr hheld, hid]
    exact ⟨_, rfl⟩
  | exportFails hphase =>
    rw [hphase] at hp
    refine hcalm.with_phase hbase ⟨hp.1, by simp [poll, handleEnrollPoll], fun body hbody => ?_⟩
    exact absurd hbody (by simp [poll, handleEnrollPoll])
  | @reply token priv found failed reach' update hphase hreach =>
    rw [hphase] at hp
    obtain rfl : reach' = reach := hfar rfl
    obtain ⟨hpriv, status, hfound⟩ := hp
    obtain ⟨rfl, -⟩ := Prod.mk.inj (Except.ok.inj hfound)
    refine hcalm.with_phase hbase ⟨hpriv, fun hgone => ?_, fun body hbody hne => ?_⟩
    · obtain ⟨_, he⟩ := poll_handleEnrollPoll.mp hgone
      exact absurd he (by simp)
    · obtain ⟨_, hub, node, _, -, hout, hconfig⟩ := body_of_answer hbody hne
      obtain ⟨hub', node', hout', hfile⟩ := hcalm.pushes
      obtain ⟨rfl, hrest⟩ := Prod.mk.inj (Except.ok.inj (hout.symm.trans hout'))
      obtain ⟨rfl, rfl⟩ := Prod.mk.inj hrest
      exact hconfig.trans hfile
  | @replyNothing token priv found failed reach' fault update hphase hnot =>
    rw [hphase] at hp
    obtain ⟨hpriv, status, rfl⟩ := hp
    refine hcalm.with_phase hbase ⟨hpriv, fun hgone => ?_, fun body hbody hne => ?_⟩
    · obtain ⟨_, he⟩ := poll_handleEnrollPoll.mp hgone
      exact absurd he (by simp)
    · obtain ⟨id', _, _, _, hfound, -, -⟩ := body_of_answer hbody hne
      exact absurd hfound (hnot id')
  | @drop token priv err hphase =>
    have hpriv : priv = st.priv := by
      rcases waits_cases hphase with hw | ⟨_, _, hw⟩ | ⟨_, _, hw⟩ <;> rw [hw] at hp
      · exact hp
      · exact hp.1
      · exact hp.1
    exact hcalm.with_phase hbase ⟨hpriv, by simp [poll], fun body hbody => absurd hbody (by simp [poll])⟩
  | @act faults token priv answer failed hphase =>
    rw [hphase] at hp
    obtain ⟨rfl, hgone, hsent⟩ := hp
    have hsame : ∀ body, poll answer = .ok body → body.config ≠ "" →
        fullConfig body.config st.priv = w.agent.lastApplied := by
      intro body hbody hne
      rw [hsent body hbody hne, hcalm.applied]
    obtain ⟨hstate, happlied, hhost⟩ := handle_same faults hgone hsame
    exact ⟨hbase, hcalm.row, hcalm.pushes, hcalm.linked, hstate.trans hcalm.state, happlied.trans hcalm.applied,
      hhost.trans hcalm.host, trivial⟩

/-- **Only what concerns a node restarts its tunnel.** Let an agent have applied the file that the panel has for its
    node. Then whatever is called that does not concern the node, and however its polls go, apart from lookups that
    fail, the agent touches neither its host nor what it keeps. -/
theorem undisturbed {hub : Hub} {secret : String} {host : Host String R}
    (hreach : World.Runs q (fun _ => True) (World.init hub secret host) w) (htoken : w.agent.st.token ≠ "")
    (hidle : w.phase = .idle) (hrow : ∃ r ∈ w.db.nodes, r.id = id ∧ r.enrollToken = some w.agent.st.token)
    (hpushes : Pushes w.db.toTables id reach file) (hlinked : reach.Perm (reachSubnets w.db.toTables id))
    (happlied : w.agent.lastApplied = fullConfig file w.agent.st.priv)
    (hrun : Relation.ReflTransGen (fun w w' => ∃ e, Elsewhere id reach w e ∧ w.fire q e = some w') w w') :
    w'.agent.host = w.agent.host ∧ w'.agent.st = w.agent.st ∧ w'.agent.lastApplied = w.agent.lastApplied := by
  have hcalm : Calm id reach file w.agent.st w.agent.host w' := by
    induction hrun with
    | refl => exact ⟨inv_runs hreach, hrow, hpushes, hlinked, rfl, happlied, rfl, by rw [hidle]; trivial⟩
    | tail _ hstep ih =>
      obtain ⟨e, hfar, he⟩ := hstep
      exact calm_fire htoken ih hfar he
  exact ⟨hcalm.host, hcalm.state, hcalm.applied.trans happlied.symm⟩

/-! ### A second home is announced -/

theorem renderNode_ne_empty {hub : Hub} {n : Node} : renderNode hub n reach ≠ "" := by
  intro h
  have hchars := congrArg String.toList ((renderNode_split hub n reach n.keys.priv).symm.trans h)
  simp only [nodeHead, String.toList_append, String.toList_empty, List.append_eq_nil_iff] at hchars
  exact absurd hchars.1.1.1.1 (by decide)

/-- A poll in which nothing fails. -/
def wholePoll (reach : List Prefix) : List Event := [.ask, .lookup none, .reply reach none none, .act .none]

/-- In such a poll an approved node is sent its file. -/
theorem fireAll_wholePoll {r : NodeRow} (hidle : w.phase = .idle)
    (hset : w.agent.st.panel ≠ "" ∧ w.agent.st.token ≠ "") (hr : r ∈ w.db.nodes) (hactive : r.status = .active)
    (htoken : r.enrollToken = some w.agent.st.token) (hpushes : Pushes w.db.toTables r.id reach file)
    (hlinked : reach.Perm (reachSubnets w.db.toTables r.id)) :
    w.fireAll q (wholePoll reach) = some { w with
      agent := w.agent.handle q .none w.agent.st.priv (.ok ⟨"active", file, "", ""⟩)
      phase := .idle } := by
  have hfound : nodeByToken w.db.toTables w.agent.st.token = .ok (r.id, .active) := by
    rw [nodeByToken_held w.db.wf hr htoken, hactive]
  obtain ⟨hub, node, hout, rfl⟩ := hpushes
  simp only [wholePoll, World.fireAll, World.fire, hidle, hset, ne_eq, not_false_eq_true, and_self, if_true,
    Option.bind_some, hfound, if_pos hlinked, hout]
  rfl

/-- No stage of such a poll concerns a node. -/
theorem elsewhere_wholePoll (h : w.fireAll q (wholePoll reach) = some w') :
    Relation.ReflTransGen (fun w w' => ∃ e, Elsewhere id reach w e ∧ w.fire q e = some w') w w' := by
  have hpolls : World.Runs q (fun e => ∀ w : World R, Elsewhere id reach w e) w w' := by
    refine runs_of_fireAll (fun e he w => ?_) h
    simp only [wholePoll, List.mem_cons, List.not_mem_nil, or_false] at he
    rcases he with rfl | rfl | rfl | rfl <;> simp [Elsewhere]
  refine Relation.ReflTransGen.mono ?_ _ _ hpolls
  rintro w w' ⟨e, he, hfire⟩
  exact ⟨e, he w, hfire⟩

/-- A store call does not look at the agent. -/
theorem call_with {op : Op} {agent : Agent R} {phase : Phase} (h : w.call op = some w') :
    ({ w with agent := agent, phase := phase } : World R).call op =
      some { w' with agent := agent, phase := phase } := by
  unfold World.call at h ⊢
  split at h
  · rename_i hnew
    rw [if_pos hnew]
    split at h
    · rename_i hrun
      obtain rfl := Option.some.inj h
      simp only [hrun]
    · exact absurd h (by simp)
  · exact absurd h (by simp)

/-- The announcement of a second home. -/
def secondHome : Op := .enrollNode 2 "token2" "pi2" "pi2" "eth0" "nodepub2" [⟨.ofBytes 192 168 2 0, 24⟩] 0

/-- The approved row of the first home. -/
def approvedRow (w : World Unit) (n : NodeRow) : Bool :=
  decide (n.id = 1 ∧ n.status = .active ∧ n.enrollToken = some w.agent.st.token ∧ n.address.isSome = true)

/-- A second home server announces itself; the first one's next poll changes nothing. -/
theorem undisturbed_home : ∃ w w' : World Unit, World.Runs fileQuick (fun _ => True) demoWorld w ∧
    w.agent.lastApplied ≠ "" ∧ w.fireAll fileQuick (.call secondHome :: wholePoll []) = some w' ∧
    w'.agent.host = w.agent.host ∧ w'.agent.lastApplied = w.agent.lastApplied := by
  have hrun : (demoWorld.fireAll fileQuick enrolled).any (fun w =>
      (w.fire fileQuick .ask).isSome && w.agent.lastApplied == "" && w.agent.st.priv != "" &&
      (reachSubnets w.db.toTables 1).isEmpty && (w.db.nodes.all fun n => n.keys.pub != "nodepub2") &&
      w.db.nodes.any (approvedRow w) && (w.call secondHome).any fun w' => w'.db.nodes.any (approvedRow w)) = true := by
    decide +kernel
  obtain ⟨w, hw, hstate⟩ := (Option.any_eq_true _ _).mp hrun
  simp only [Bool.and_eq_true, beq_iff_eq, bne_iff_ne, List.isEmpty_iff, List.all_eq_true, List.any_eq_true,
    Option.any_eq_true, approvedRow, decide_eq_true_eq] at hstate
  obtain ⟨⟨⟨⟨⟨⟨hask, hblank⟩, hpriv⟩, hreach⟩, hkeys⟩, r, hr, hid, hactive, htoken, haddr⟩,
    announced, hcall, r', hr', hid', hactive', htoken', -⟩ := hstate
  obtain ⟨asked, hasked⟩ := Option.isSome_iff_exists.mp hask
  obtain ⟨hidle, hset⟩ : w.phase = .idle ∧ w.agent.st.panel ≠ "" ∧ w.agent.st.token ≠ "" := by
    cases fires_of_fire hasked with
    | ask hidle hset => exact ⟨hidle, hset⟩
  obtain ⟨a, ha⟩ := Option.isSome_iff_exists.mp haddr
  obtain ⟨file, hpushes, hfile⟩ : ∃ file, Pushes w.db.toTables 1 [] file ∧ file ≠ "" :=
    ⟨_, (pushes_iff w.db.wf hr hid).mpr ⟨a, ha, rfl⟩, renderNode_ne_empty⟩
  have hlinked : ([] : List Prefix).Perm (reachSubnets w.db.toTables 1) := by rw [hreach]
  -- the first poll after the approval
  have hfirst : w.fireAll fileQuick (wholePoll []) = some { w with
      agent := w.agent.handle fileQuick .none w.agent.st.priv (.ok ⟨"active", file, "", ""⟩)
      phase := .idle } :=
    fireAll_wholePoll hidle hset hr hactive htoken (by rw [hid]; exact hpushes) (by rw [hid]; exact hlinked)
  have hfull : fullConfig file w.agent.st.priv ≠ "" := fullConfig_ne_empty hfile hpriv
  have happlied : (w.agent.handle fileQuick .none w.agent.st.priv (.ok ⟨"active", file, "", ""⟩)).lastApplied =
      fullConfig file w.agent.st.priv := applied_of_body rfl hfile hpriv hblank
  have hst : (w.agent.handle fileQuick .none w.agent.st.priv (.ok ⟨"active", file, "", ""⟩)).st = w.agent.st :=
    handle_st
  generalize w.agent.handle fileQuick .none w.agent.st.priv (.ok ⟨"active", file, "", ""⟩) = agent at *
  rw [← hst] at hset htoken htoken' happlied hfull
  have hbefore : World.Runs fileQuick (fun _ => True) demoWorld
      ({ w with agent := agent, phase := .idle } : World Unit) :=
    (runs_of_fireAll (fun _ _ => trivial) hw).trans (runs_of_fireAll (fun _ _ => trivial) hfirst)
  -- the announcement
  have hfar : ¬ Concerns w.db.toTables 1 secondHome := by
    rintro ⟨m, hm, hpub, -⟩
    exact hkeys m hm hpub
  have heff : Effect secondHome w.db.toTables announced.db.toTables := effect_of_run (call_eq hcall).2.1
  obtain ⟨-, -, -, hpushes'⟩ := file_kept w.db.wf announced.db.wf heff hfar hr hid hpushes
  have hlinked' : ([] : List Prefix).Perm (reachSubnets announced.db.toTables 1) := by
    rw [reach_kept w.db.wf announced.db.wf heff hfar]
    exact hlinked
  have hcalled : ({ w with agent := agent, phase := .idle } : World Unit).call secondHome =
      some { announced with agent := agent, phase := .idle } := call_with hcall
  -- the poll after it
  obtain ⟨last, hsecond⟩ : ∃ last, ({ announced with agent := agent, phase := .idle } : World Unit).fireAll fileQuick
      (wholePoll []) = some last :=
    ⟨_, fireAll_wholePoll rfl hset hr' hactive' htoken' (by rw [hid']; exact hpushes') (by rw [hid']; exact hlinked')⟩
  obtain ⟨hhost, -, hlast⟩ := undisturbed hbefore hset.2 rfl ⟨r, hr, hid, htoken⟩ hpushes hlinked happlied
    (.head ⟨.call secondHome, hfar, hcalled⟩ (elsewhere_wholePoll hsecond))
  refine ⟨_, last, hbefore, fun hnone => hfull (happlied.symm.trans hnone), ?_, hhost, hlast⟩
  show ((({ w with agent := agent, phase := .idle } : World Unit).call secondHome).bind fun w' =>
    w'.fireAll fileQuick (wholePoll [])) = _
  rw [hcalled]
  exact hsecond

end NodeAgent
end BeautyAwg
