import BeautyAwg.NodeAgent.Correctness.Teardown

/-!
# `NodeAgent.Correctness.Events`: one event, by cases

`Fires q w e w'` says what an event can do to a panel and its agent, guards included, with one constructor for each
kind of event and each place it can come at. Results about runs are proved from it and unfold no `World.fire`.

## Contents
- **Events.** `Fires`, `fires_of_fire`; `waits_cases`.
- **Answers.** `body_of_answer`.
- **Runs.** `fireAll_concat`, `fireAll_induction`.
-/

namespace BeautyAwg
namespace NodeAgent

open Netip Awg Store Api

variable {R : Type} {q : Quick String R} {w w' : World R} {e : Event}

/-! ## Events -/

/-- The agent waits for an answer, with this token and this key. -/
def Phase.Waits (token priv : String) : Phase → Prop
  | .idle => False
  | .asked token' priv' => token' = token ∧ priv' = priv
  | .looked token' priv' _ _ => token' = token ∧ priv' = priv
  | .answered token' priv' _ _ => token' = token ∧ priv' = priv

/-- A poll that waits with a token and a key is at one of three places. -/
theorem waits_cases {token priv : String} {p : Phase} (h : p.Waits token priv) :
    p = .asked token priv ∨ (∃ found failed, p = .looked token priv found failed) ∨
      ∃ answer failed, p = .answered token priv answer failed := by
  cases p with
  | idle => exact h.elim
  | asked =>
    obtain ⟨rfl, rfl⟩ := h
    exact .inl rfl
  | looked =>
    obtain ⟨rfl, rfl⟩ := h
    exact .inr (.inl ⟨_, _, rfl⟩)
  | answered =>
    obtain ⟨rfl, rfl⟩ := h
    exact .inr (.inr ⟨_, _, rfl⟩)

/-- What one event does. -/
inductive Fires (q : Quick String R) (w : World R) : Event → World R → Prop
  | call {op : Op} {w' : World R} (hcall : w.call op = some w') : Fires q w (.call op) w'
  | connect {fresh : Fresh} {req : ConnectReq} (hidle : w.phase = .idle) (htoken : w.agent.st.token = "") :
    Fires q w (.connect fresh req) (w.connect fresh req)
  | ask (hidle : w.phase = .idle) (hset : w.agent.st.panel ≠ "" ∧ w.agent.st.token ≠ "") :
    Fires q w .ask { w with phase := .asked w.agent.st.token w.agent.st.priv }
  | lookupFails {token priv err : String} (hphase : w.phase = .asked token priv) :
    Fires q w (.lookup (some err)) { w with phase := .looked token priv (.error err) (some .lookup) }
  | lookup {token priv : String} (hphase : w.phase = .asked token priv) :
    Fires q w (.lookup none) { w with phase := .looked token priv (nodeByToken w.db.toTables token) none }
  /-- The node is active, but what it is to get cannot be read. -/
  | exportFails {token priv err : String} {id : Uuid} {failed : Option Failure} {reach : List Prefix}
      {update : Option (String × String)} (hphase : w.phase = .looked token priv (.ok (id, .active)) failed) :
    Fires q w (.reply reach (some err) update) { w with
      phase := .answered token priv (.ok (handleEnrollPoll (.ok (id, .active)) (.error err) update)) (some .export) }
  | reply {token priv : String} {id : Uuid} {failed : Option Failure} {reach : List Prefix}
      {update : Option (String × String)} (hphase : w.phase = .looked token priv (.ok (id, .active)) failed)
      (hreach : reach.Perm (reachSubnets w.db.toTables id)) :
    Fires q w (.reply reach none update) { w with
      phase := .answered token priv
        (.ok (handleEnrollPoll (.ok (id, .active)) (getNodeForExport w.db.toTables id reach) update)) failed }
  /-- The node is not active, or was not found. -/
  | replyNothing {token priv : String} {found : Except String (Uuid × NodeStatus)} {failed : Option Failure}
      {reach : List Prefix} {fault : Option String} {update : Option (String × String)}
      (hphase : w.phase = .looked token priv found failed) (hnot : ∀ id, found ≠ .ok (id, .active)) :
    Fires q w (.reply reach fault update) { w with
      phase := .answered token priv (.ok (handleEnrollPoll found (.error "") update)) failed }
  | drop {token priv err : String} (hphase : Phase.Waits token priv w.phase) :
    Fires q w (.drop err) { w with phase := .answered token priv (.error err) (some .network) }
  | act {faults : Faults String} {token priv : String} {answer : Except String Response} {failed : Option Failure}
      (hphase : w.phase = .answered token priv answer failed) :
    Fires q w (.act faults) { w with agent := w.agent.handle q faults priv (poll answer), phase := .idle }

/-- The cases of an event. -/
theorem fires_of_fire (h : w.fire q e = some w') : Fires q w e w' := by
  unfold World.fire at h
  split at h
  · exact .call h
  · rename_i hidle
    split at h
    · rename_i htoken
      obtain rfl := Option.some.inj h
      exact .connect hidle htoken
    · exact absurd h (by simp)
  · rename_i hidle
    split at h
    · rename_i hset
      obtain rfl := Option.some.inj h
      exact .ask hidle hset
    · exact absurd h (by simp)
  · rename_i hphase
    split at h
    · obtain rfl := Option.some.inj h
      exact .lookupFails hphase
    · obtain rfl := Option.some.inj h
      exact .lookup hphase
  · rename_i hphase
    split at h
    · split at h
      · rename_i hreach
        split at h
        · obtain rfl := Option.some.inj h
          exact .exportFails hphase
        · obtain rfl := Option.some.inj h
          exact .reply hphase hreach
      · exact absurd h (by simp)
    · rename_i hnot
      obtain rfl := Option.some.inj h
      exact .replyNothing hphase fun id hid => hnot id hid
  · rename_i hphase
    obtain rfl := Option.some.inj h
    exact .drop (by rw [hphase]; exact ⟨rfl, rfl⟩)
  · rename_i hphase
    obtain rfl := Option.some.inj h
    exact .drop (by rw [hphase]; exact ⟨rfl, rfl⟩)
  · rename_i hphase
    obtain rfl := Option.some.inj h
    exact .drop (by rw [hphase]; exact ⟨rfl, rfl⟩)
  · rename_i hphase
    obtain rfl := Option.some.inj h
    exact .act hphase
  · exact absurd h (by simp)

/-! ## Answers -/

/-- An answer with a configuration in it: the row was active when it was looked up, and was exported. -/
theorem body_of_answer {found : Except String (Uuid × NodeStatus)}
    {exported : Except String (Hub × Node × List Prefix)} {update : Option (String × String)} {body : PollBody}
    (h : poll (.ok (handleEnrollPoll found exported update)) = .ok body) (hne : body.config ≠ "") :
    ∃ id hub node reach, found = .ok (id, .active) ∧ exported = .ok (hub, node, reach) ∧
      body.config = renderNode hub node reach := by
  cases found with
  | error e => exact absurd h (by simp [handleEnrollPoll, poll])
  | ok found =>
    obtain ⟨id, status⟩ := found
    cases status with
    | active =>
      cases exported with
      | error e => exact absurd h (by simp [handleEnrollPoll, poll])
      | ok out =>
        obtain ⟨hub, node, reach⟩ := out
        obtain rfl := PollResult.ok.inj h
        exact ⟨id, hub, node, reach, rfl, rfl, rfl⟩
    | pending | rejected =>
      obtain rfl := PollResult.ok.inj h
      exact absurd rfl hne

/-! ## Runs -/

/-- The last event of a run comes after the run of the others. -/
theorem fireAll_concat (start : World R) (es : List Event) (e : Event) :
    start.fireAll q (es ++ [e]) = (start.fireAll q es).bind fun w => w.fire q e := by
  induction es generalizing start with
  | nil =>
    show (start.fire q e).bind (fun w => some w) = start.fire q e
    cases start.fire q e <;> rfl
  | cons x es ih =>
    show (start.fire q x).bind (fun w => w.fireAll q (es ++ [e])) =
      ((start.fire q x).bind fun w => w.fireAll q es).bind fun w => w.fire q e
    cases start.fire q x with
    | none => rfl
    | some w => exact ih w

/-- What every event keeps holds after a run; `I` speaks of the events so far. -/
theorem fireAll_induction {I : List Event → World R → Prop} {start : World R} {es : List Event}
    (hstep : ∀ past e w w', (past ++ [e]) <+: es → start.fireAll q past = some w → I past w → w.fire q e = some w' →
      I (past ++ [e]) w') (hstart : I [] start) (hrun : start.fireAll q es = some w) : I es w := by
  induction es using List.reverseRecOn generalizing w with
  | nil =>
    obtain rfl := Option.some.inj hrun
    exact hstart
  | append_singleton es e ih =>
    rw [fireAll_concat] at hrun
    obtain ⟨w₁, hbefore, he⟩ := Option.bind_eq_some_iff.mp hrun
    have hw₁ : I es w₁ := by
      refine ih (fun past e w w' hpast => ?_) hbefore
      exact hstep past e w w' (hpast.trans (List.prefix_append _ _))
    exact hstep es e w₁ w (List.prefix_refl _) hbefore hw₁ he

end NodeAgent
end BeautyAwg
