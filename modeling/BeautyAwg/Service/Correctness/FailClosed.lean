import BeautyAwg.Service.Correctness.ExitRouting

/-!
# `Service.Correctness.FailClosed`: exit traffic while a reconcile is under way

The ACL opens everything outside the mesh to an exit client, by whatever interface it leaves, and is loaded
before the rules that steer the client into its exit. What keeps the traffic off the hub's WAN is the steering
alone (`exit_fails_closed`); a reconcile takes it away and puts it back (`reconcile_leaks`).

## Contents
- **The property.** `ExitOnly`, `FailsClosed`.
- **Steering.** `Steered`; `failsClosed_iff`: it is just what the property needs.
- **Careful runs.** `Task.Safe`, `SafeRuns`; the invariant `Shut`; `exit_fails_closed`.
- **Reconciles.** `reconcile_leaks`; a run that does.
-/

namespace BeautyAwg
namespace Service

open Netip Nft Awg Store PolicyRouting Tasks

variable {net net' : Kernel Nat Dev} {l l' : Live} {s : Snapshot} {t : Task} {a : Addr}

/-! ## The property -/

/-- The client has a node exit, and no exit by the hub. -/
def ExitOnly (s : Snapshot) (c : Addr) : Prop :=
  (∃ g ∈ s.grants, g.clientAddr = c ∧ g.nodeExit = true) ∧ ∀ g ∈ s.grants, g.clientAddr = c → g.isExit = false

/-- What the loaded ACL accepts from such a client to an address outside the mesh leaves by an exit. A packet
    that leaves by the WAN has that interface's name. -/
def FailsClosed (l : Live) : Prop :=
  ∀ s, l.acl = some s → ∀ (p : Packet) (dev : Dev), ExitOnly s (.v4 p.src) → p.ct = .new →
    ¬ InMesh s.hub s.nodes p.dst → l.net.route (.v4 p.src) (.v4 p.dst) = some dev →
    (dev = .wan → p.oif = s.hub.wanIface) →
    (forwardChain s.hub s.nodes s.grants s.links).accepts p = true → dev.isExit = true

/-! ## Steering -/

/-- Such a client, when some address lies outside the mesh. -/
def Exposed (s : Snapshot) (x : BitVec 32) : Prop := ExitOnly s (.v4 x) ∧ ∃ y, ¬ InMesh s.hub s.nodes y

/-- A source rule of the client leads to an exit, and nothing outside the snapshot's mesh is taken back to the
    main table. -/
def Steered (s : Snapshot) (net : Kernel Nat Dev) (x : BitVec 32) : Prop :=
  (∃ i, Applier.sourceRule ⟨.v4 x, exitTableBase + i⟩ ∈ net.rules ∧ exitDefault i ∈ net.routes) ∧
    ∀ q, Applier.meshRule q ∈ net.rules → ∀ y, q.contains (.v4 y) = true → InMesh s.hub s.nodes y

/-- A steered client leaves by an exit. -/
theorem Steered.route {x y : BitVec 32} (h : Steered s net x) (hr : Routed net) (hout : ¬ InMesh s.hub s.nodes y) :
    ∃ dev, net.route (.v4 x) (.v4 y) = some dev ∧ dev.isExit = true := by
  obtain ⟨⟨i, hrule, hroute⟩, hmesh⟩ := h
  apply exists_route hr.sorted hrule (applies_sourceRule.mpr rfl) (lookup_exit hr hroute y)
  intro r' hr' hpref happ dev hdev
  rcases hr.rules r' hr' with rfl | ⟨q, rfl⟩ | ⟨c, j, rfl⟩
  · exact absurd hpref (by simp [mainRule, Applier.sourceRule, exitPref])
  · exact absurd (hmesh q hr' y (applies_meshRule.mp happ)) hout
  · -- an exit's table has no other routes
    obtain ⟨r, hrmem, htable, -, rfl⟩ := route_of_lookup hdev
    rcases hr.routes r hrmem with ⟨hmain, -⟩ | ⟨k, rfl⟩
    · have : mainTable = exitTableBase + j := hmain.symm.trans htable
      simp only [mainTable, exitTableBase] at this
      omega
    · rfl

/-- Every packet finds a route. -/
theorem exists_route_main (hr : Routed net) (x y : BitVec 32) : ∃ dev, net.route (.v4 x) (.v4 y) = some dev := by
  obtain ⟨dev, hdev, -⟩ := lookup_main hr y
  obtain ⟨dev', h, -⟩ := exists_route (P := fun _ => True) hr.sorted hr.main rfl hdev fun _ _ _ _ _ _ => trivial
  exact ⟨dev', h⟩

/-- The ACL accepts what an exit client sends outside the mesh, by whatever interface. -/
theorem ExitOnly.accepted {p : Packet} (h : ExitOnly s (.v4 p.src)) (hout : ¬ InMesh s.hub s.nodes p.dst) :
    (forwardChain s.hub s.nodes s.grants s.links).accepts p = true := by
  obtain ⟨⟨g, hg, hc, hexit⟩, hnothub⟩ := h
  apply forwardChain_accepts.mpr
  exact .inr (.inl ⟨g, hg, hc, .inr (.inl ⟨hnothub g hg hc, hexit, hout⟩)⟩)

/-- **What the property needs.** Every exit client of the loaded ACL is steered. -/
theorem failsClosed_iff (hr : Routed l.net) :
    FailsClosed l ↔ ∀ s, l.acl = some s → ∀ x, Exposed s x → Steered s l.net x := by
  constructor
  · intro h s hs x ⟨hx, y₀, hy₀⟩
    -- where the client's packets go, for any address outside the mesh
    have hexit : ∀ y, ¬ InMesh s.hub s.nodes y → ∀ dev, l.net.route (.v4 x) (.v4 y) = some dev →
        dev.isExit = true := by
      intro y hy dev hdev
      let p : Packet := ⟨x, y, s.hub.wanIface, .tcp, 0, .new, false, 0⟩
      exact h s hs p dev hx rfl hy hdev (fun _ => rfl) (ExitOnly.accepted (p := p) hx hy)
    constructor
    · obtain ⟨dev, hdev⟩ := exists_route_main hr x y₀
      obtain ⟨r, hrmem, happ, hlookup⟩ := rule_of_route hdev
      have hdevexit := hexit y₀ hy₀ dev hdev
      obtain ⟨main, hmain, hmainexit⟩ := lookup_main hr y₀
      have hnotmain : r.table ≠ mainTable := by
        intro htable
        rw [htable, hmain] at hlookup
        obtain rfl := Option.some.inj hlookup
        exact absurd (hmainexit.symm.trans hdevexit) (by simp)
      rcases hr.rules r hrmem with rfl | ⟨q, rfl⟩ | ⟨c, i, rfl⟩
      · exact absurd rfl hnotmain
      · exact absurd rfl hnotmain
      · obtain rfl : c = .v4 x := applies_sourceRule.mp happ
        obtain ⟨route, hroute, htable, -, -⟩ := route_of_lookup hlookup
        refine ⟨i, hrmem, ?_⟩
        rcases hr.routes route hroute with ⟨hmaintable, -⟩ | ⟨k, rfl⟩
        · have : mainTable = exitTableBase + i := hmaintable.symm.trans htable
          simp only [mainTable, exitTableBase] at this
          omega
        · have hk : exitTableBase + k = exitTableBase + i := htable
          rw [← Nat.add_left_cancel hk]
          exact hroute
    · intro q hq y hqy
      by_contra hy
      obtain ⟨main, hmain, hmainexit⟩ := lookup_main hr y
      have hroute : l.net.route (.v4 x) (.v4 y) = some main := by
        apply route_eq_some hr.sorted hq (applies_meshRule.mpr hqy) hmain
        intro r' hr' hpref _
        rcases hr.rules r' hr' with rfl | ⟨q', rfl⟩ | ⟨c, i, rfl⟩
        · exact hmain
        · exact hmain
        · exact absurd hpref (by simp [Applier.meshRule, Applier.sourceRule, exitPref, exitMeshPref])
      exact absurd (hmainexit.symm.trans (hexit y hy main hroute)) (by simp)
  · intro h s hs p dev hx hnew hout hroute _ _
    obtain ⟨dev', hdev', hexit⟩ := (h s hs p.src ⟨hx, p.dst, hout⟩).route hr hout
    obtain rfl := Option.some.inj (hroute.symm.trans hdev')
    exact hexit

/-! ## Careful runs -/

/-- The command leaves a source rule and an exit to every exposed client of the loaded ACL: it does not delete
    the last such rule, nor the exit that it leads to. -/
def SafeCmd (l : Live) (c : Cmd Nat Dev) : Prop :=
  ∀ s, l.acl = some s → ∀ x, Exposed s x →
    (c = .delRule exitPref → ∃ i, Applier.sourceRule ⟨.v4 x, exitTableBase + i⟩ ∈ (l.net.rulesAt exitPref).tail ∧
      exitDefault i ∈ l.net.routes) ∧
    ∀ dev, c = .delLink dev → ∃ i, Applier.sourceRule ⟨.v4 x, exitTableBase + i⟩ ∈ l.net.rules ∧
      exitDefault i ∈ l.net.routes ∧ dev ≠ .exit i

/-- An ACL is loaded when its exposed clients are steered already, and they stay so. -/
def Task.Safe (l : Live) (t : Task) : Prop :=
  (∀ s, t = .loadNFT s → ∀ x, Exposed s x → Steered s l.net x) ∧ ∀ c, t.cmd = some c → SafeCmd l c

/-- Runs in which every task is safe where it is taken up. -/
def SafeRuns (kind : Snapshot → Prop) : List Task × Live → List Task × Live → Prop :=
  Relation.ReflTransGen fun c c' => Moves kind c c' ∧ ∀ t ts, c.1 = t :: ts → t.Safe c.2

/-- The mesh rules that are still to come are for the mesh of the ACL that is loaded by then. -/
def MeshAhead : Option Snapshot → List Task → Prop
  | _, [] => True
  | _, .loadNFT s :: ts => MeshAhead (some s) ts
  | acl, t :: ts =>
    (∀ q, t.cmd = some (.addRule (Applier.meshRule q)) → ∀ s, acl = some s → q ∈ mesh s.hub s.nodes) ∧
      MeshAhead acl ts

/-- A task that leaves the ruleset may only add rules for subnets that the ruleset knows. -/
theorem meshAhead_cons {acl : Option Snapshot} {ts : List Task} (ht : t.keepsAcl) :
    MeshAhead acl (t :: ts) ↔
      (∀ q, t.cmd = some (.addRule (Applier.meshRule q)) → ∀ s, acl = some s → q ∈ mesh s.hub s.nodes) ∧
        MeshAhead acl ts := by
  cases t with
  | loadNFT s => exact absurd ht id
  | _ => rfl

theorem meshAhead_append {acl : Option Snapshot} {ts ts' : List Task}
    (hts : ∀ t ∈ ts, t.keepsAcl ∧
      ∀ q, t.cmd = some (.addRule (Applier.meshRule q)) → ∀ s, acl = some s → q ∈ mesh s.hub s.nodes)
    (hts' : MeshAhead acl ts') : MeshAhead acl (ts ++ ts') := by
  induction ts with
  | nil => exact hts'
  | cons t ts ih =>
    obtain ⟨hkeeps, hq⟩ := hts t List.mem_cons_self
    exact (meshAhead_cons hkeeps).mpr ⟨hq, ih fun u hu => hts u (List.mem_cons_of_mem _ hu)⟩

/-- A reconcile loads its ruleset before it adds the rules for that ruleset's mesh. -/
theorem meshAhead_reconcile (acl : Option Snapshot) (s : Snapshot) : MeshAhead acl (reconcile s) := by
  have hroutes : ∀ t ∈ Applier.ensureRoutes (Plan.of s).routes, t.keepsAcl ∧
      ∀ q, t.cmd = some (.addRule (Applier.meshRule q)) → ∀ s', some s = some s' → q ∈ mesh s'.hub s'.nodes := by
    intro t ht
    refine ⟨ensureRoutes_keepsAcl _ t ht, fun q hq => ?_⟩
    obtain ⟨p, -, rfl⟩ := List.mem_map.mp ht
    exact absurd hq (by simp [Task.cmd])
  have hexits : ∀ t ∈ Applier.ensureExitRoutes (Plan.of s).hubAddr (Plan.of s).mesh (Plan.of s).exits,
      t.keepsAcl ∧ ∀ q, t.cmd = some (.addRule (Applier.meshRule q)) →
        ∀ s', some s = some s' → q ∈ mesh s'.hub s'.nodes := by
    intro t ht
    refine ⟨ensureExitRoutes_keepsAcl _ _ _ t ht, fun q hq s' hs' => ?_⟩
    obtain rfl := Option.some.inj hs'
    unfold Applier.ensureExitRoutes at ht
    split at ht
    · rw [List.mem_singleton.mp ht] at hq
      exact absurd hq (by simp [Task.cmd])
    · simp only [List.mem_append, List.mem_cons, List.not_mem_nil, or_false, List.mem_map, List.mem_flatMap] at ht
      -- of all tasks one kind adds rules for the mesh
      rcases ht with ((((rfl | rfl | rfl | rfl) | ⟨d, -, ht⟩) | ⟨p, hp, rfl⟩) | ⟨x, -, rfl⟩)
      · exact absurd hq (by simp [Task.cmd])
      · exact absurd hq (by simp [Task.cmd])
      · exact absurd hq (by simp [Task.cmd])
      · exact absurd hq (by simp [Task.cmd])
      · simp only [Applier.deviceTasks, List.mem_cons, List.not_mem_nil, or_false] at ht
        rcases ht with rfl | rfl | rfl <;> exact absurd hq (by simp [Task.cmd])
      · obtain rfl : p = q := by simpa [Task.cmd, Applier.meshRule] using hq
        exact hp
      · exact absurd hq (by simp [Task.cmd, Applier.meshRule, Applier.sourceRule, exitPref, exitMeshPref])
  have hrest : MeshAhead (some s) (Applier.ensureRoutes (Plan.of s).routes ++
      (Applier.ensureExitRoutes (Plan.of s).hubAddr (Plan.of s).mesh (Plan.of s).exits ++ [])) :=
    meshAhead_append hroutes (meshAhead_append hexits trivial)
  rw [List.append_nil] at hrest
  show MeshAhead acl ((Applier.apply s ++ Applier.ensureRoutes (Plan.of s).routes) ++ _)
  rw [List.append_assoc]
  refine ⟨fun q hq => ?_, fun q hq => ?_, hrest⟩
  · exact absurd hq (by simp [Task.cmd])
  · exact absurd hq (by simp [Task.cmd])

/-- The program ahead and the clients of the loaded ACL. -/
structure Shut (c : List Task × Live) : Prop where
  fits : ∀ t ∈ c.1, t.Fits
  routed : Routed c.2.net
  ahead : MeshAhead c.2.acl c.1
  steered : ∀ s, c.2.acl = some s → ∀ x, Exposed s x → Steered s c.2.net x

/-- A safe command keeps a client steered. -/
theorem Steered.exec {x : BitVec 32} {c : Cmd Nat Dev} (h : Steered s l.net x) (hr : Routed l.net) (hc : CmdFits c)
    (hexec : c.exec l.net = some net') (hsafe : SafeCmd l c) (hacl : l.acl = some s) (hx : Exposed s x)
    (hmesh : ∀ q, c = .addRule (Applier.meshRule q) → q ∈ mesh s.hub s.nodes) : Steered s net' x := by
  obtain ⟨hdel, hlink⟩ := hsafe s hacl x hx
  -- what is left of the steering, whatever the command takes away
  have hleft : ∃ i, Applier.sourceRule ⟨.v4 x, exitTableBase + i⟩ ∈ net'.rules ∧ exitDefault i ∈ l.net.routes ∧
      ∀ dev, c = .delLink dev → dev ≠ .exit i := by
    by_cases hrule : c = .delRule exitPref
    · obtain ⟨i, hi, hroute⟩ := hdel hrule
      refine ⟨i, ?_, hroute, fun dev he => absurd (hrule.symm.trans he) (by simp)⟩
      have hat := rulesAt_exec hexec hr.sorted exitPref
      rw [hrule] at hat
      simp only [Cmd.onRules, if_true] at hat
      rw [← hat] at hi
      exact (mem_rulesAt.mp hi).1
    · by_cases hdev : ∃ dev, c = .delLink dev
      · obtain ⟨dev, rfl⟩ := hdev
        obtain ⟨i, hi, hroute, hne⟩ := hlink dev rfl
        refine ⟨i, keeps_rule hexec hi (by simp), hroute, fun dev' he => ?_⟩
        rw [← Cmd.delLink.inj he]
        exact hne
      · obtain ⟨i, hi, hroute⟩ := h.1
        exact ⟨i, keeps_rule hexec hi hrule, hroute, fun dev he => absurd ⟨dev, he⟩ hdev⟩
  obtain ⟨i, hi, hroute, hne⟩ := hleft
  refine ⟨⟨i, hi, ?_⟩, fun q hq y hqy => ?_⟩
  · exact keeps_exitDefault hexec hc hroute fun he => hne _ he rfl
  · rcases mem_rules_exec hexec hq with hq | he
    · exact h.2 q hq y hqy
    · exact mem_mesh_contains.mp ⟨q, hmesh q he, hqy⟩

theorem perform_acl {fault : Bool} (ht : t.keepsAcl) : (t.perform fault l).1.acl = l.acl := by
  have hperformed := performed t fault l
  generalize (t.perform fault l).1 = l' at hperformed ⊢
  cases hperformed with
  | loaded he =>
    subst he
    exact absurd ht id
  | _ => rfl

/-- What a task unfolds to loads no ACL and adds no rule. -/
theorem Unfolds.plain {u : Task} (h : Unfolds l t u) : u.keepsAcl ∧ ∀ r, u.cmd ≠ some (.addRule r) := by
  cases h <;> exact ⟨trivial, by simp [Task.cmd]⟩

/-- Whatever a safe task does, the clients of the ACL that is loaded then are steered. -/
theorem Shut.performed {ts : List Task} (h : Shut (t :: ts, l)) (hsafe : t.Safe l) (hperformed : Performed t l l') :
    ∀ s, l'.acl = some s → ∀ x, Exposed s x → Steered s l'.net x := by
  cases hperformed with
  | same => exact h.steered
  | up _ =>
    intro s hs x hx
    obtain ⟨⟨i, hrule, hroute⟩, hmesh⟩ := h.steered s hs x hx
    exact ⟨⟨i, hrule, List.mem_append_left _ hroute⟩, hmesh⟩
  | synced _ => exact h.steered
  | loaded ht =>
    intro s hs x hx
    obtain rfl := Option.some.inj hs
    exact hsafe.1 _ ht x hx
  | command hcmd hc =>
    intro s hs x hx
    have hfits := (h.fits t List.mem_cons_self).cmd hcmd
    have hkeeps : t.keepsAcl := by
      cases t with
      | loadNFT s => exact absurd hcmd (by simp [Task.cmd])
      | _ => trivial
    refine (h.steered s hs x hx).exec h.routed hfits hc (hsafe.2 _ hcmd) hs hx fun q hq => ?_
    exact ((meshAhead_cons hkeeps).mp h.ahead).1 q (hq ▸ hcmd) s hs

/-- **Step.** -/
theorem Shut.step {c c' : List Task × Live} (h : Shut c) (hstep : Tasks.Step Task.perform c c')
    (hsafe : ∀ t ts, c.1 = t :: ts → t.Safe c.2) : Shut c' := by
  have hkeep := hstep.keeps (P := fun m => Routed m.net) (fun t fault l => Routed.perform t fault l) h.fits h.routed
  refine ⟨hkeep.1, hkeep.2, ?_, ?_⟩
  · cases hstep with
    | stop _ => trivial
    | @goOn t ts new l l' fault hperform =>
      -- a loaded ruleset is the one that the rules ahead are for; other tasks leave it
      by_cases hload : ∃ s, t = .loadNFT s
      · obtain ⟨s, rfl⟩ := hload
        simp only [Task.perform] at hperform
        split at hperform
        · exact absurd (Prod.mk.inj hperform).2 (by simp)
        · obtain ⟨rfl, hnew⟩ := Prod.mk.inj hperform
          obtain rfl := Option.some.inj hnew
          exact h.ahead
      · have ht : t.keepsAcl := by
          cases t with
          | loadNFT s => exact absurd ⟨s, rfl⟩ hload
          | _ => trivial
        have hacl : (t.perform fault l).1.acl = l.acl := perform_acl ht
        rw [hperform] at hacl
        show MeshAhead l'.acl (new ++ ts)
        rw [hacl]
        refine meshAhead_append (fun u hu => ?_) ((meshAhead_cons ht).mp h.ahead).2
        have hplain := (unfolds (by rw [hperform]) hu).plain
        exact ⟨hplain.1, fun q hq => absurd hq (hplain.2 _)⟩
  · cases hstep with
    | @goOn t ts new l l' fault hperform =>
      have hperformed := Service.performed t fault l
      rw [hperform] at hperformed
      exact h.performed (hsafe t ts rfl) hperformed
    | @stop t ts l l' fault hperform =>
      have hperformed := Service.performed t fault l
      rw [hperform] at hperformed
      exact h.performed (hsafe t ts rfl) hperformed

/-- While every move is safe, the exposed clients of the loaded ruleset stay steered. -/
theorem safeRuns_shut {kind : Snapshot → Prop} {c : List Task × Live} (h : SafeRuns kind ([], l) c)
    (hclean : CleanHost l.net) (hacl : l.acl = none) : Shut c := by
  induction h with
  | refl =>
    refine ⟨fun t ht => absurd ht List.not_mem_nil, hclean.routed, trivial, fun s hs => ?_⟩
    exact absurd (hacl.symm.trans hs) (by simp)
  | tail _ hmove ih =>
    obtain ⟨hmove, hsafe⟩ := hmove
    cases hmove with
    | start _ => exact ⟨reconcile_fits _, ih.routed, meshAhead_reconcile _ _, ih.steered⟩
    | command hstep => exact ih.step hstep hsafe

/-- **Exit traffic fails closed, as long as the clients stay steered.** From a clean host, in every sequence of
    reconciles cut short anywhere: if every task is safe where it is taken up, then after every single command
    what the loaded ACL accepts from an exit client to an address outside the mesh leaves by an exit. -/
theorem exit_fails_closed {kind : Snapshot → Prop} {c : List Task × Live} (h : SafeRuns kind ([], l) c)
    (hclean : CleanHost l.net) (hacl : l.acl = none) : FailsClosed c.2 := by
  have hshut := safeRuns_shut h hclean hacl
  exact (failsClosed_iff hshut.routed).mpr hshut.steered

/-! ### Runs without exposed clients -/

/-- The program loads no ACL with an exposed client, and none is loaded. -/
def NoneExposed (acl : Option Snapshot) (ts : List Task) : Prop :=
  (∀ s, acl = some s → ∀ x, ¬ Exposed s x) ∧ ∀ s, .loadNFT s ∈ ts → ∀ x, ¬ Exposed s x

theorem NoneExposed.safe {ts : List Task} (h : NoneExposed l.acl (t :: ts)) : t.Safe l := by
  refine ⟨fun s hs x hx => ?_, fun c _ s hs x hx => absurd hx (h.1 s hs x)⟩
  exact absurd hx (h.2 s (hs ▸ List.mem_cons_self) x)

/-- Such a program runs safely. -/
theorem finishes_safeRuns {kind : Snapshot → Prop} {ts : List Task} (h : Finishes Task.perform ts l l')
    (hnone : NoneExposed l.acl ts) (rest : List Task) : SafeRuns kind (ts ++ rest, l) (rest, l') := by
  induction h with
  | nil => exact .refl
  | @cons t ts new l m l' hperform _ ih =>
    refine .head ⟨.command (.goOn hperform), fun t' ts' he => ?_⟩ ?_
    · obtain ⟨rfl, -⟩ := List.cons.inj he
      exact hnone.safe
    · show SafeRuns kind (new ++ (ts ++ rest), m) _
      rw [← List.append_assoc]
      apply ih
      have hperformed := performed t false l
      rw [hperform] at hperformed
      constructor
      · cases hperformed with
        | loaded he =>
          intro s hs
          obtain rfl := Option.some.inj hs
          exact hnone.2 _ (he ▸ List.mem_cons_self)
        | _ => exact hnone.1
      · intro s hs
        rcases List.mem_append.mp hs with hs | hs
        · exact absurd (unfolds (by rw [hperform]) hs).plain.1 id
        · exact hnone.2 s (List.mem_cons_of_mem _ hs)

/-! ### A device that gives the hub's exit up -/

/-- A device with both exits, and the same device once the hub's is revoked. -/
def bothExits (hubToo : Bool) : Snapshot :=
  assemble demoHub
    [(2, ⟨"internet", .ofBytes 10 8 0 1, [everywhere], ⟨"", ""⟩, "", "", true, "", []⟩),
      (1, ⟨"home", .ofBytes 10 8 0 2, [⟨.ofBytes 192 168 1 0, 24⟩], ⟨"", "nodepub"⟩, "eth0", "", false, "", []⟩)]
    [(3, ⟨"phone", .ofBytes 10 8 0 3, ⟨"", "phonepub"⟩, "", ""⟩)] []
    (⟨3, 1, true⟩ :: if hubToo then [⟨3, 2, false⟩] else []) []

/-- A device with both exits has no address exposed: the hub's exit takes it. -/
theorem bothExits_none (x : BitVec 32) : ¬ Exposed (bothExits true) x := by
  rintro ⟨⟨⟨g, hg, hc, -⟩, hnot⟩, -⟩
  have hphone : ∀ g ∈ (bothExits true).grants, g.clientAddr = .ofBytes 10 8 0 3 := by decide
  have hhub : ∃ h ∈ (bothExits true).grants, h.clientAddr = .ofBytes 10 8 0 3 ∧ h.isExit = true := by decide
  obtain ⟨h, hh, haddr, hexit⟩ := hhub
  exact absurd (hnot h hh (haddr.trans ((hphone g hg).symm.trans hc))) (by simp [hexit])

/-- A reconcile loads the ruleset of its own snapshot. -/
theorem loads_reconcile {s' : Snapshot} (h : Task.loadNFT s' ∈ reconcile s) : s' = s := by
  rcases List.mem_append.mp h with h | h
  · rcases List.mem_append.mp h with h | h
    · simpa [Applier.apply] using h
    · exact absurd (ensureRoutes_keepsAcl _ _ h) id
  · exact absurd (ensureExitRoutes_keepsAcl _ _ _ _ h) id

/-- One of a device's two exits has been revoked, and a reconcile has just loaded the ruleset without it. -/
theorem exit_fails_closed_revoked : ∃ (c : List Task × Live) (s : Snapshot),
    c.2.acl = some s ∧ ExitOnly s (.ofBytes 10 8 0 3) ∧ FailsClosed c.2 := by
  let again : List Task := [.files, .ensureIface (bothExits false)]
  let host := (Tasks.run Task.perform 60 (reconcile (bothExits true)) demoHost).getD demoHost
  let host' := (Tasks.run Task.perform 60 again host).getD host
  have hfirst : Finishes Task.perform (reconcile (bothExits true)) demoHost host :=
    finishes_of_run (n := 60) (by decide)
  have hagain : Finishes Task.perform again host host' := finishes_of_run (n := 60) (by decide)
  have hacl : host.acl = some (bothExits true) := by decide
  let rest : List Task := .loadNFT (bothExits false) :: (Applier.ensureRoutes (Plan.of (bothExits false)).routes ++
    Applier.ensureExitRoutes (Plan.of (bothExits false)).hubAddr (Plan.of (bothExits false)).mesh
      (Plan.of (bothExits false)).exits)
  -- a full reconcile with both exits, then one without the hub's that is cut before its ruleset
  have hruns : SafeRuns (fun _ => True) ([], demoHost) (rest, host') := by
    refine .head ⟨.start (s := bothExits true) trivial, fun t ts he => absurd he (by simp)⟩ ?_
    have hsafe : SafeRuns (fun _ => True) (reconcile (bothExits true) ++ [], demoHost) ([], host) := by
      refine finishes_safeRuns hfirst ⟨fun s hs => absurd hs (by simp [demoHost]), fun s hs => ?_⟩ []
      rw [loads_reconcile hs]
      exact bothExits_none
    rw [List.append_nil] at hsafe
    refine hsafe.trans (.head ⟨.start (s := bothExits false) trivial, fun t ts he => absurd he (by simp)⟩ ?_)
    have hnone : NoneExposed host.acl again := by
      refine ⟨fun s hs => ?_, fun s hs => absurd hs (by simp [again])⟩
      obtain rfl := Option.some.inj (hacl.symm.trans hs)
      exact bothExits_none
    exact finishes_safeRuns hagain hnone rest
  -- the rules of the first one still steer the phone
  have hsteered : ∀ x, Exposed (bothExits false) x → Steered (bothExits false) host'.net x := by
    intro x hx
    obtain ⟨⟨g, hg, hc, -⟩, -⟩ := hx.1
    have hphone : ∀ g ∈ (bothExits false).grants, g.clientAddr = .v4 0x0a080003 := by decide
    obtain rfl := Addr.v4.inj ((hphone g hg).symm.trans hc)
    refine ⟨⟨2, by decide, by decide⟩, fun q hq y hqy => mem_mesh_contains.mp ⟨q, ?_, hqy⟩⟩
    have hmesh : ∀ r ∈ host'.net.rules, r.pref = exitMeshPref →
        ∃ q ∈ mesh (bothExits false).hub (bothExits false).nodes, r.dst = some q := by decide
    obtain ⟨q', hq', he⟩ := hmesh _ hq rfl
    rw [Option.some.inj he]
    exact hq'
  have hload : (Task.loadNFT (bothExits false)).perform false host' =
      ({ host' with acl := some (bothExits false) }, some []) := by
    have hloads : nftLoads (bothExits false).hub (bothExits false).nodes (bothExits false).grants
        (bothExits false).links = true := by decide
    simp only [Task.perform, hloads]
    rfl
  refine ⟨_, bothExits false, rfl, ⟨by decide, by decide⟩,
    exit_fails_closed (hruns.tail ⟨.command (.goOn hload), fun t ts he => ?_⟩) demoHost_clean rfl⟩
  obtain ⟨rfl, -⟩ := List.cons.inj he
  refine ⟨fun s hs x hx => ?_, fun c hc => absurd hc (by simp [Task.cmd])⟩
  obtain rfl := Task.loadNFT.inj hs
  exact hsteered x hx

/-! ## Reconciles -/

/-- **A reconcile that runs to its end opens the WAN on the way**, to every exposed client of its snapshot: when
    the old rules are gone, what the ACL accepts is looked up in the main table. -/
theorem reconcile_leaks {x : BitVec 32} (h : Reconciles s l l') (hr : Routed l.net) (hx : Exposed s x) :
    ∃ c, Relation.ReflTransGen (Tasks.Step Task.perform) (reconcile s, l) c ∧ ¬ FailsClosed c.2 := by
  obtain ⟨m, hfirst, hexits, hm, hacl⟩ := reconciles_cut h hr
  obtain ⟨devs, rules, m', hplan, hflush, -, -, -, hsource⟩ := finishes_flushes hexits hm.sorted
  refine ⟨(afterFlush s.hub.address (mesh s.hub s.nodes) devs rules, m'), (hfirst.steps _).trans ?_, ?_⟩
  · show Relation.ReflTransGen _ (Applier.ensureExitRoutes s.hub.address (mesh s.hub s.nodes) _, m) _
    rw [show exitRoutes s.grants = (Plan.of s).exits from rfl] at hplan
    rw [ensureExitRoutes_eq hplan]
    exact hflush.steps _
  · have hacl' : m'.acl = some s := by
      rw [finishes_keepsAcl hflush (by simp [Task.keepsAcl]), hacl]
    have hr' : Routed m'.net := by
      apply finishes_routed hflush _ hm
      simp [Task.Fits, exitMeshPref, exitPref]
    intro hclosed
    obtain ⟨⟨i, hrule, -⟩, -⟩ := (failsClosed_iff hr').mp hclosed s hacl' x hx
    have hat := mem_rulesAt.mpr ⟨hrule, rfl⟩
    rw [show (Applier.sourceRule ⟨.v4 x, exitTableBase + i⟩).pref = exitPref from rfl, hsource] at hat
    exact absurd hat List.not_mem_nil

/-- **A reconcile of one home's device opens the WAN.** On a clean host the ACL is loaded before the device's
    rules are there, and the device's packet leaves by the hub's WAN. -/
theorem reconcile_opens_wan : ∃ c, Runs ExitsApart ([], demoHost) c ∧
    ∃ (s : Snapshot) (p : Packet), c.2.acl = some s ∧ ExitOnly s (.v4 p.src) ∧ p.ct = .new ∧
      ¬ InMesh s.hub s.nodes p.dst ∧ c.2.net.route (.v4 p.src) (.v4 p.dst) = some .wan ∧
      p.oif = s.hub.wanIface ∧ (forwardChain s.hub s.nodes s.grants s.links).accepts p = true := by
  let loaded : Live := ⟨awgUp exitDemo demoHost.net, some exitDemo, some exitDemo⟩
  have happly : Finishes Task.perform (Applier.apply exitDemo) demoHost loaded :=
    finishes_of_run (n := 5) (by decide)
  have hruns : Runs ExitsApart ([], demoHost) (Applier.ensureRoutes (Plan.of exitDemo).routes ++
      Applier.ensureExitRoutes (Plan.of exitDemo).hubAddr (Plan.of exitDemo).mesh (Plan.of exitDemo).exits,
      loaded) := by
    refine .head (.start exitDemo_apart) ?_
    rw [reconcile, List.append_assoc]
    exact (happly.steps _).lift id fun _ _ h => Moves.command h
  refine ⟨_, hruns, exitDemo, ⟨0x0a080003, 0x01010101, "eth0", .tcp, 443, .new, false, 0⟩, rfl, ⟨by decide, by decide⟩,
    rfl, ?_, by decide, rfl, by decide⟩
  rw [← mem_mesh_contains]
  decide

end Service
end BeautyAwg
