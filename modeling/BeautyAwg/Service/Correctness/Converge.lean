import BeautyAwg.Service.Reconcile

/-!
# `Service.Correctness.Converge`: the live hub converges to the database

A reconcile may read a state torn by other requests' commits. It does no harm: whoever commits still has
its own reconcile ahead of it, so the last reconcile to take the mutex starts after every commit and reads
one state. The invariant says just that: while no request has store calls left, either the owner of the
mutex has read nothing stale (`Consistent`), or nobody reconciles and the applier has what the database
says (`Settled`).
-/

namespace BeautyAwg
namespace Service

open Netip Awg Store Api

variable {w w' : World} {i j : Nat} {s s' : Stage}

/-! ## The invariant -/

/-- The request has store calls left, or has not started its reconcile. -/
def Stage.pending : Stage → Bool
  | call _ => true
  | calling _ => true
  | _ => false

/-- The request is inside its reconcile. -/
def Stage.locked : Stage → Bool
  | call _ => false
  | calling _ => false
  | returned => false
  | _ => true

/-- What the reconcile has read is what is committed now, and what it has handed over is from it. -/
def Consistent (w : World) : Stage → Prop
  | .call _ => False
  | .calling _ => False
  | .readHub => True
  | .readNodes hub => hub = w.db.hub
  | .readClients hub nodes => hub = w.db.hub ∧ NodesRead w.db.toTables nodes
  | .readRules hub nodes clients =>
    hub = w.db.hub ∧ NodesRead w.db.toTables nodes ∧ ClientsRead w.db.toTables clients
  | .readGrants hub nodes clients rules =>
    hub = w.db.hub ∧ NodesRead w.db.toTables nodes ∧ ClientsRead w.db.toTables clients ∧
      RulesRead w.db.toTables rules
  | .readLinks hub nodes clients rules grants =>
    hub = w.db.hub ∧ NodesRead w.db.toTables nodes ∧ ClientsRead w.db.toTables clients ∧
      RulesRead w.db.toTables rules ∧ GrantsRead w.db.toTables grants
  | .apply s => SnapshotOf w.db.toTables s
  | .ensureRoutes s =>
    SnapshotOf w.db.toTables s ∧ w.applied.apply = (Applied.of (Plan.of s)).apply
  | .ensureExitRoutes s =>
    SnapshotOf w.db.toTables s ∧ w.applied.apply = (Applied.of (Plan.of s)).apply ∧
      w.applied.ensureRoutes = (Applied.of (Plan.of s)).ensureRoutes
  | .returned => False

/-- The applier was last handed what one snapshot of the database is rendered to. -/
def Settled (w : World) : Prop :=
  ∃ s, SnapshotOf w.db.toTables s ∧ w.applied = Applied.of (Plan.of s)

/-- Where the latest commit's way to the applier stands. -/
inductive Progress (w : World) : Prop
  | untouched (h : ∀ i, w.requests i = none)
  | pending {i : Nat} {s : Stage} (hi : w.requests i = some s) (hs : s.pending = true)
  | reading {i : Nat} {s : Stage} (hm : w.mutex = some i) (hi : w.requests i = some s) (hc : Consistent w s)
  | settled (hm : w.mutex = none) (h : Settled w)

/-- Whoever is inside a reconcile has the mutex, and `Progress`. -/
structure Inv (w : World) : Prop where
  owner : ∀ i s, w.requests i = some s → s.locked = true → w.mutex = some i
  progress : Progress w

/-! ## Steps -/

theorem goto_self : (w.goto i s).requests i = some s := by simp [World.goto, World.setStage]

/-- A request that moves on leaves the others where they are. -/
theorem goto_other (h : j ≠ i) : (w.goto i s).requests j = w.requests j := by
  simp [World.goto, World.setStage, h]

/-- The owner of the mutex takes a step inside its reconcile: if it was consistent it still is. -/
theorem inv_locked {applied : Applied} (hinv : Inv w) (hi : w.requests i = some s) (hs : s.locked = true)
    (hc : Consistent w s → Consistent { w.goto i s' with applied := applied } s') :
    Inv { w.goto i s' with applied := applied } := by
  have hm := hinv.owner i s hi hs
  refine ⟨fun j t hj ht => ?_, ?_⟩
  · by_cases hji : j = i
    · exact hji ▸ hm
    · exact hinv.owner j t ((goto_other hji).symm.trans hj) ht
  · cases hinv.progress with
    | untouched h => exact absurd ((h i).symm.trans hi) (by simp)
    | @pending j t hj ht =>
      have hji : j ≠ i := by
        rintro rfl
        obtain rfl := Option.some.inj (hj.symm.trans hi)
        cases t <;> simp_all [Stage.pending, Stage.locked]
      exact .pending ((goto_other hji).trans hj) ht
    | @reading j t hm' hj hcons =>
      obtain rfl := Option.some.inj (hm'.symm.trans hm)
      obtain rfl := Option.some.inj (hj.symm.trans hi)
      exact .reading hm goto_self (hc hcons)
    | settled hnone => exact absurd (hnone.symm.trans hm) (by simp)

/-- A request that is outside its reconcile moves to a stage before it, whatever it does to the server. -/
theorem inv_pending {sys : Txn.Sys Op Db Write Lock StoreErr} (hinv : Inv w) (hs' : s'.pending = true) :
    Inv { w.goto i s' with sys := sys } := by
  refine ⟨fun j t hj ht => ?_, .pending goto_self hs'⟩
  by_cases hji : j = i
  · subst hji
    obtain rfl := Option.some.inj (goto_self.symm.trans hj)
    cases s' <;> simp_all [Stage.pending, Stage.locked]
  · exact hinv.owner j t ((goto_other hji).symm.trans hj) ht

/-- The mutex is taken: nothing is read yet, so nothing is stale. -/
theorem inv_lock (hinv : Inv w) (hfree : w.mutex = none) :
    Inv { w.goto i .readHub with mutex := some i } := by
  refine ⟨fun j t hj ht => ?_, .reading rfl goto_self trivial⟩
  by_cases hji : j = i
  · exact hji ▸ rfl
  · have hm := hinv.owner j t ((goto_other hji).symm.trans hj) ht
    exact absurd (hfree.symm.trans hm) (by simp)

/-- The last applier call: a consistent reconcile leaves the hub settled. -/
theorem inv_return {s : Snapshot} (hinv : Inv w) (hi : w.requests i = some (.ensureExitRoutes s)) :
    Inv { w.goto i .returned with
      mutex := none
      applied := { w.applied with
        ensureExitRoutes := some ((Plan.of s).hubAddr, (Plan.of s).mesh, (Plan.of s).exits) } } := by
  have hm := hinv.owner i _ hi rfl
  refine ⟨fun j t hj ht => ?_, ?_⟩
  · by_cases hji : j = i
    · subst hji
      obtain rfl := Option.some.inj (goto_self.symm.trans hj)
      exact absurd ht (by simp [Stage.locked])
    · have hm' := hinv.owner j t ((goto_other hji).symm.trans hj) ht
      exact absurd (Option.some.inj (hm.symm.trans hm')).symm hji
  · cases hinv.progress with
    | untouched h => exact absurd ((h i).symm.trans hi) (by simp)
    | @pending j t hj ht =>
      have hji : j ≠ i := by
        rintro rfl
        obtain rfl := Option.some.inj (hj.symm.trans hi)
        exact absurd ht (by simp [Stage.pending])
      exact .pending ((goto_other hji).trans hj) ht
    | @reading j t hm' hj hcons =>
      obtain rfl := Option.some.inj (hm'.symm.trans hm)
      obtain rfl := Option.some.inj (hj.symm.trans hi)
      -- the first two calls were made with this snapshot, the third one is now
      obtain ⟨hsnap, happly, hroutes⟩ := hcons
      refine .settled rfl ⟨s, hsnap, ?_⟩
      change Applied.mk w.applied.apply w.applied.ensureRoutes _ = _
      rw [happly, hroutes]
      rfl
    | settled hnone => exact absurd (hnone.symm.trans hm) (by simp)

/-- A step keeps the invariant. -/
theorem inv_step (hinv : Inv w) (h : World.Step w w') : Inv w' := by
  cases h with
  | start hfree hcalls => exact inv_pending hinv rfl
  | begin hi hfire => exact inv_pending hinv rfl
  | commit hi ht hret hfire => exact inv_pending hinv rfl
  | @statement i ops t t' sys hi ht hfire ht' =>
    exact ⟨hinv.owner, .pending hi rfl⟩
  | lock hi hfree => exact inv_lock hinv hfree
  | readHub hi => exact inv_locked hinv hi rfl fun _ => rfl
  | readNodes hi hread => exact inv_locked hinv hi rfl fun h => ⟨h, hread⟩
  | readClients hi hread => exact inv_locked hinv hi rfl fun ⟨hh, hn⟩ => ⟨hh, hn, hread⟩
  | readRules hi hread => exact inv_locked hinv hi rfl fun ⟨hh, hn, hc⟩ => ⟨hh, hn, hc, hread⟩
  | readGrants hi hread =>
    exact inv_locked hinv hi rfl fun ⟨hh, hn, hc, hr⟩ => ⟨hh, hn, hc, hr, hread⟩
  | readLinks hi hread =>
    refine inv_locked hinv hi rfl fun ⟨hh, hn, hc, hr, hg⟩ => ?_
    exact ⟨_, _, _, _, _, hn, hc, hr, hg, hread, by rw [hh]; rfl⟩
  | apply hi => exact inv_locked hinv hi rfl fun h => ⟨h, rfl⟩
  | ensureRoutes hi => exact inv_locked hinv hi rfl fun ⟨h, ha⟩ => ⟨h, ha, rfl⟩
  | ensureExitRoutes hi => exact inv_return hinv hi

/-- The invariant holds wherever a run from the start leads. -/
theorem inv_steps {db : Db} (h : World.Steps (World.init db) w) : Inv w := by
  induction h with
  | refl => exact ⟨fun _ _ h => absurd h (by simp [World.init]), .untouched fun _ => rfl⟩
  | tail _ hstep ih => exact inv_step ih hstep

/-! ## Convergence -/

/-- **The live hub converges to the database.** Start on any database and let any requests run beside each
    other, every store and applier call succeeding. Once there has been a request and all have returned,
    the applier was last handed what one snapshot of the committed database is rendered to. -/
theorem converges {db : Db} (h : World.Steps (World.init db) w) (hsome : ∃ i, w.requests i ≠ none)
    (hall : ∀ i s, w.requests i = some s → s = .returned) :
    ∃ s, SnapshotOf w.db.toTables s ∧ w.applied = Applied.of (Plan.of s) := by
  cases (inv_steps h).progress with
  | untouched hnone =>
    obtain ⟨i, hi⟩ := hsome
    exact absurd (hnone i) hi
  | pending hi hs => exact absurd hs (by rw [hall _ _ hi]; simp [Stage.pending])
  | reading hm hi hc => exact absurd hc (by rw [hall _ _ hi]; exact id)
  | settled _ hs => exact hs

/-! ### Requests on a schedule -/

/-- The next step of one request, whose queries return their rows in table order. -/
def World.advance (w : World) (i : Nat) : Option World :=
  match w.requests i with
  | none | some .returned => none
  | some (.call []) => if w.mutex = none then some { w.goto i .readHub with mutex := some i } else none
  | some (.call (op :: ops)) =>
    (Txn.fire Store.apply Op.body w.sys (.start i op)).map fun sys => { w.goto i (.calling ops) with sys := sys }
  | some (.calling ops) =>
    match w.sys.sessions i, Txn.fire Store.apply Op.body w.sys (.next i) with
    | some t, some sys =>
      if (sys.sessions i).isSome then some { w with sys := sys } else
      match t.rest with
      | .ret _ => some { w.goto i (.call ops) with sys := sys }
      | _ => none
    | _, _ => none
  | some .readHub => some (w.goto i (.readNodes w.db.hub))
  | some (.readNodes hub) => some (w.goto i (.readClients hub w.db.nodeRows))
  | some (.readClients hub nodes) => some (w.goto i (.readRules hub nodes w.db.clientRows))
  | some (.readRules hub nodes clients) => some (w.goto i (.readGrants hub nodes clients w.db.grantRules))
  | some (.readGrants hub nodes clients rules) =>
    some (w.goto i (.readLinks hub nodes clients rules w.db.enabledGrants))
  | some (.readLinks hub nodes clients rules grants) =>
    some (w.goto i (.apply (assemble hub nodes clients rules grants w.db.links)))
  | some (.apply s) => some { w.goto i (.ensureRoutes s) with
      applied := { w.applied with apply := some ((Plan.of s).hubConf, (Plan.of s).nftRules) } }
  | some (.ensureRoutes s) => some { w.goto i (.ensureExitRoutes s) with
      applied := { w.applied with ensureRoutes := some (Plan.of s).routes } }
  | some (.ensureExitRoutes s) => some { w.goto i .returned with
      mutex := none
      applied := { w.applied with
        ensureExitRoutes := some ((Plan.of s).hubAddr, (Plan.of s).mesh, (Plan.of s).exits) } }

/-- It is a step, and leaves the other requests where they are. -/
theorem advance_spec (h : w.advance i = some w') :
    World.Step w w' ∧ ∀ j, j ≠ i → w'.requests j = w.requests j := by
  have hgoto : ∀ {s : Stage} {sys mutex applied}, ∀ j, j ≠ i →
      ({ w.goto i s with sys := sys, mutex := mutex, applied := applied } : World).requests j = w.requests j :=
    fun j hj => goto_other hj
  unfold World.advance at h
  split at h
  case h_1 => exact absurd h (by simp)
  case h_2 => exact absurd h (by simp)
  case h_3 hi =>
    split at h
    · exact Option.some.inj h ▸ ⟨.lock hi ‹_›, hgoto⟩
    · exact absurd h (by simp)
  case h_4 hi =>
    obtain ⟨sys, hfire, rfl⟩ := Option.map_eq_some_iff.mp h
    exact ⟨.begin hi hfire, hgoto⟩
  case h_5 hi =>
    split at h
    · rename_i t sys ht hfire
      split at h
      · rename_i hsome
        obtain ⟨t', ht'⟩ := Option.isSome_iff_exists.mp hsome
        exact Option.some.inj h ▸ ⟨.statement hi ht hfire ht', fun _ _ => rfl⟩
      · split at h
        · exact Option.some.inj h ▸ ⟨.commit hi ht ‹_› hfire, hgoto⟩
        · exact absurd h (by simp)
    · exact absurd h (by simp)
  case h_6 hi => exact Option.some.inj h ▸ ⟨.readHub hi, hgoto⟩
  case h_7 hi => exact Option.some.inj h ▸ ⟨.readNodes hi (nodesRead_rows _), hgoto⟩
  case h_8 hi => exact Option.some.inj h ▸ ⟨.readClients hi (clientsRead_rows _), hgoto⟩
  case h_9 hi => exact Option.some.inj h ▸ ⟨.readRules hi (List.Perm.refl _), hgoto⟩
  case h_10 hi => exact Option.some.inj h ▸ ⟨.readGrants hi (List.Perm.refl _), hgoto⟩
  case h_11 hi => exact Option.some.inj h ▸ ⟨.readLinks hi (List.Perm.refl _), hgoto⟩
  case h_12 hi => exact Option.some.inj h ▸ ⟨.apply hi, hgoto⟩
  case h_13 hi => exact Option.some.inj h ▸ ⟨.ensureRoutes hi, hgoto⟩
  case h_14 hi => exact Option.some.inj h ▸ ⟨.ensureExitRoutes hi, hgoto⟩

/-- A request comes in, or one takes its next step. -/
inductive Turn where
  | start (i : Nat) (req : AdminReq) (fresh : Fresh)
  | next (i : Nat)

/-- The request whose turn it is. -/
def Turn.request : Turn → Nat
  | start i _ _ => i
  | next i => i

/-- One move of a request, if it can be made now. -/
def World.turn (w : World) : Turn → Option World
  | .start i req fresh =>
    match w.requests i, req.calls fresh with
    | none, .ok ops => some (w.goto i (.call ops))
    | _, _ => none
  | .next i => w.advance i

/-- A list of moves. -/
def World.turns : World → List Turn → Option World
  | w, [] => some w
  | w, t :: ts => (w.turn t).bind fun w' => World.turns w' ts

/-- A turn is a step of its own request and of no other. -/
theorem turn_spec {t : Turn} (h : w.turn t = some w') :
    World.Step w w' ∧ ∀ j, j ≠ t.request → w'.requests j = w.requests j := by
  cases t with
  | start i req fresh =>
    simp only [World.turn] at h
    split at h
    · rename_i hfree hcalls
      exact Option.some.inj h ▸ ⟨.start hfree hcalls, fun _ hj => goto_other hj⟩
    · exact absurd h (by simp)
  | next i => exact advance_spec h

/-- A schedule is a run, in which only the requests that have a turn come in or move. -/
theorem turns_spec {ts : List Turn} (h : w.turns ts = some w') :
    World.Steps w w' ∧ ∀ j, (∀ t ∈ ts, j ≠ t.request) → w'.requests j = w.requests j := by
  induction ts generalizing w with
  | nil => exact Option.some.inj h ▸ ⟨Relation.ReflTransGen.refl, fun _ _ => rfl⟩
  | cons t ts ih =>
    obtain ⟨w₁, ht, hrest⟩ := Option.bind_eq_some_iff.mp h
    obtain ⟨hstep, hother⟩ := turn_spec ht
    obtain ⟨hsteps, hothers⟩ := ih hrest
    refine ⟨(Relation.ReflTransGen.single hstep).trans hsteps, fun j hj => ?_⟩
    rw [hothers j fun t ht => hj t (List.mem_cons_of_mem _ ht), hother j (hj t List.mem_cons_self)]

/-! ### Two requests that overlap -/

/-- A device is created; its reconcile has read the nodes when a node is created and committed. -/
def overlapping : List Turn :=
  [.start 0 (.createClient ⟨"phone", ""⟩) { demoFresh with id := 2 }] ++ .replicate 9 (.next 0) ++
    [.start 1 (.createNode ⟨"home", "eth0", ["192.168.1.0/24"]⟩) demoFresh] ++ .replicate 7 (.next 1)

/-- The first request reconciles from what it has read, then the second one does. -/
def reconciling : List Turn := .replicate 7 (.next 0) ++ .replicate 10 (.next 1)

/-- The reconcile has read that there are no nodes. -/
def Stage.sawNone : Option Stage → Bool
  | some (.readClients _ []) => true
  | _ => false

/-- The request is over. -/
def Stage.isReturned : Option Stage → Bool
  | some .returned => true
  | _ => false

theorem eq_of_isReturned {s : Option Stage} (h : Stage.isReturned s = true) : s = some .returned := by
  unfold Stage.isReturned at h
  split at h
  · rfl
  · exact absurd h (by simp)

/-- The first reconcile reads across the commit of the other request, whose node it has missed; when both have
    returned, the hub has what the database says. -/
theorem converges_overlap : ∃ w w', World.Steps (World.init (Db.boot demoHub "")) w ∧ World.Steps w w' ∧
    Stage.sawNone (w.requests 0) = true ∧ w.db.liveNodes.length = 1 ∧
    w'.requests 0 = some .returned ∧ w'.requests 1 = some .returned ∧
    ∃ s, SnapshotOf w'.db.toTables s ∧ w'.applied = Applied.of (Plan.of s) := by
  have hrun : ((World.init (Db.boot demoHub "")).turns overlapping).any (fun w =>
      Stage.sawNone (w.requests 0) && w.db.liveNodes.length == 1 &&
        (w.turns reconciling).any fun w' => Stage.isReturned (w'.requests 0) && Stage.isReturned (w'.requests 1)) =
      true := by decide +kernel
  obtain ⟨w, hw, hcheck⟩ := (Option.any_eq_true _ _).mp hrun
  obtain ⟨hmiddle, hcheck⟩ := Bool.and_eq_true_iff.mp hcheck
  obtain ⟨hsaw, hlive⟩ := Bool.and_eq_true_iff.mp hmiddle
  obtain ⟨w', hw', hcheck⟩ := (Option.any_eq_true _ _).mp hcheck
  obtain ⟨hzero, hone⟩ := Bool.and_eq_true_iff.mp hcheck
  obtain ⟨hsteps, hfirst⟩ := turns_spec hw
  obtain ⟨hsteps', hrest⟩ := turns_spec hw'
  have hzero := eq_of_isReturned hzero
  have hone := eq_of_isReturned hone
  -- the other requests never began
  have hall : ∀ i s, w'.requests i = some s → s = .returned := by
    intro i s hi
    by_cases h0 : i = 0
    · rw [h0, hzero] at hi
      exact (Option.some.inj hi).symm
    · by_cases h1 : i = 1
      · rw [h1, hone] at hi
        exact (Option.some.inj hi).symm
      · have hturns : ∀ t ∈ overlapping ++ reconciling, t.request = 0 ∨ t.request = 1 := by
          simp [overlapping, reconciling, Turn.request]
        have hne : ∀ t ∈ overlapping ++ reconciling, i ≠ t.request := by
          rintro t ht rfl
          exact (hturns t ht).elim h0 h1
        rw [hrest i fun t ht => hne t (List.mem_append_right _ ht),
          hfirst i fun t ht => hne t (List.mem_append_left _ ht)] at hi
        exact absurd hi (by simp [World.init])
  exact ⟨w, w', hsteps, hsteps', hsaw, beq_iff_eq.mp hlive, hzero, hone,
    converges (hsteps.trans hsteps') ⟨0, by rw [hzero]; simp⟩ hall⟩

end Service
end BeautyAwg
