import BeautyAwg.Lib.Rows
import BeautyAwg.Store.Ops

/-!
# `Store.Correctness.NodeExit`: one node exit for each device

`setGrantExit` looks for another exit of the device in one statement and sets its own in a later one,
with no lock on the device in between. Two of them on different nodes can therefore both find nothing and
both commit (`setGrantExit_race`). Where no two are past that check together, every device has at most
one exit in every committed state (`one_exit`).
-/

namespace BeautyAwg
namespace Store

open Netip Awg Txn

/-! ## The invariant -/

/-- The device's grants that are exits. -/
def Tables.exitsOf (t : Tables) (client : Uuid) : List GrantRow :=
  t.grants.filter fun g => g.clientId = client ∧ g.exit

/-- No device exits through two nodes. -/
def OneExit (db : Db) : Prop :=
  ∀ g ∈ db.grants, ∀ h ∈ db.grants, g.exit = true → h.exit = true → g.clientId = h.clientId → g.nodeId = h.nodeId

/-- The device exits through no node but this one. -/
def NoOtherExit (client node : Uuid) (db : Db) : Prop :=
  ∀ g ∈ db.grants, g.exit = true → g.clientId = client → g.nodeId = node

variable {db db' : Db} {client node : Uuid}

/-- The primary key turns one client and one node into one row. -/
theorem length_le_one_of_key {p : GrantRow → Bool}
    (hsame : ∀ g ∈ db.grants.filter p, ∀ g' ∈ db.grants.filter p, g.key = g'.key) :
    (db.grants.filter p).length ≤ 1 :=
  length_le_one_of_nodup_map (db.wf.grants_pkey.sublist (List.filter_sublist.map _)) hsame

theorem OneExit.length_le (h : OneExit db) (client : Uuid) : (db.exitsOf client).length ≤ 1 := by
  refine length_le_one_of_key fun g hg g' hg' => ?_
  simp only [List.mem_filter, decide_eq_true_eq] at hg hg'
  have hc : g.clientId = g'.clientId := hg.2.1.trans hg'.2.1.symm
  exact Prod.ext hc (h g hg.1 g' hg'.1 hg.2.2 hg'.2.2 hc)

theorem oneExit_of_length_le (h : ∀ client, (db.exitsOf client).length ≤ 1) : OneExit db := by
  intro g hg g' hg' he he' hc
  have hmem : ∀ x ∈ db.grants, x.exit = true → x.clientId = g'.clientId → x ∈ db.exitsOf g'.clientId :=
    fun x hx hxe hxc => List.mem_filter.mpr ⟨hx, by simp [hxe, hxc]⟩
  have h₁ := hmem g hg he hc
  have h₂ := hmem g' hg' he' rfl
  have hlen := h g'.clientId
  match hl : db.exitsOf g'.clientId with
  | [] => exact absurd (hl ▸ h₁) List.not_mem_nil
  | [x] =>
    rw [hl, List.mem_singleton] at h₁ h₂
    rw [h₁, h₂]
  | _ :: _ :: _ => exact absurd (hl ▸ hlen) (by simp)

/-- A write that makes no grant an exit. -/
def AddsNoExit : Write → Prop
  | .insertGrant g => g.exit = false
  | .setExit _ exit => exit = false
  | _ => True

/-- The exits after such a write were exits before it. -/
theorem exit_of_addsNoExit {w : Write} (hw : AddsNoExit w) (h : apply w db = .ok db') {g : GrantRow}
    (hg : g ∈ db'.grants) (hexit : g.exit = true) : g ∈ db.grants := by
  rw [apply_eq_ok] at h
  rw [← h] at hg
  cases w with
  | insertGrant g' =>
    simp only [Write.eval] at hg
    split at hg
    · exact hg
    · rcases List.mem_append.mp hg with hg | hg
      · exact hg
      · rw [List.mem_singleton.mp hg] at hexit
        exact absurd (hexit.symm.trans hw) (by simp)
  | setExit key exit =>
    obtain ⟨g', hg', rfl⟩ := List.mem_map.mp hg
    split at hexit
    · exact absurd (hexit.symm.trans hw) (by simp)
    · rename_i hkey
      simpa [hkey] using hg'
  | deleteNode id | deleteClient id | deleteGrant key => exact (List.mem_filter.mp hg).1
  | insertNode | updateNode | insertSubnet | deleteSubnet | insertDomain | deleteDomain | insertClient
  | updateClient | insertRule | deleteRule | insertLink | deleteLink => exact hg

/-- Setting an exit adds an exit for its own device and node only. -/
theorem exit_of_setExit (h : apply (.setExit (client, node) true) db = .ok db') {g : GrantRow}
    (hg : g ∈ db'.grants) (hexit : g.exit = true) : g.clientId = client ∧ g.nodeId = node ∨ g ∈ db.grants := by
  rw [apply_eq_ok] at h
  rw [← h] at hg
  obtain ⟨g', hg', rfl⟩ := List.mem_map.mp hg
  by_cases hkey : g'.key = (client, node)
  · simp only [hkey, if_true]
    exact Or.inl ⟨congrArg Prod.fst hkey, congrArg Prod.snd hkey⟩
  · simp only [hkey, if_false]
    exact Or.inr hg'

theorem oneExit_of_setExit (h : apply (.setExit (client, node) true) db = .ok db') (hone : OneExit db)
    (hno : NoOtherExit client node db) : OneExit db' := by
  intro g hg g' hg' he he' hc
  rcases exit_of_setExit h hg he with ⟨h₁, h₂⟩ | hold <;>
    rcases exit_of_setExit h hg' he' with ⟨h₁', h₂'⟩ | hold'
  · rw [h₂, h₂']
  · rw [h₂, hno g' hold' he' (hc ▸ h₁)]
  · rw [h₂', hno g hold he (hc.trans h₁')]
  · exact hone g hold g' hold' he he' hc

/-! ## The protocol -/

/-- The device and node of a call that is to make a grant an exit. -/
def Op.enables : Op → Option (Uuid × Uuid)
  | .setGrantExit client node true => some (client, node)
  | _ => none

/-- Two sessions that are both past the check for another exit of one device, on different nodes. The
    check is the second statement of the body. -/
def Races (op : Op) (n : Nat) (op' : Op) (n' : Nat) : Prop :=
  2 ≤ n ∧ 2 ≤ n' ∧ ∃ client node node', op.enables = some (client, node) ∧
    op'.enables = some (client, node') ∧ node ≠ node'

instance (op : Op) (n : Nat) (op' : Op) (n' : Nat) : Decidable (Races op n op' n') :=
  decidable_of_iff (2 ≤ n ∧ 2 ≤ n' ∧ ∃ k ∈ op.enables, ∃ k' ∈ op'.enables, k.1 = k'.1 ∧ k.2 ≠ k'.2) (by
    constructor
    · rintro ⟨hn, hn', ⟨client, node⟩, hk, ⟨client', node'⟩, hk', hclient, hnode⟩
      obtain rfl : client = client' := hclient
      exact ⟨hn, hn', client, node, node', hk, hk', hnode⟩
    · rintro ⟨hn, hn', client, node, node', hk, hk', hnode⟩
      exact ⟨hn, hn', (client, node), hk, (client, node'), hk', rfl, hnode⟩)

/-- Past its check, a session relies on no other exit of its device being committed. -/
def exitProtocol : Protocol Op Db Lock where
  good := OneExit
  rely op n _ c c' := 2 ≤ n → ∀ client node, op.enables = some (client, node) →
    NoOtherExit client node c → NoOtherExit client node c'
  compat op n op' n' := ¬ Races op n op' n'
  rely_refl _ _ _ _ := fun _ _ _ _ h => h
  rely_trans _ _ _ _ _ _ h₁ h₂ := fun hn client node he h => h₂ hn client node he (h₁ hn client node he h)

variable {op : Op} {n : Nat} {held : List Lock} {c : Db}

theorem oneExit_of_addsNoExit {w : Write} (hw : AddsNoExit w) (h : apply w db = .ok db') (hone : OneExit db) :
    OneExit db' := fun g hg g' hg' he he' =>
  hone g (exit_of_addsNoExit hw h hg he) g' (exit_of_addsNoExit hw h hg' he') he he'

/-- A body that makes no grant an exit. -/
theorem wp_addsNoExit {t : Tx Unit} (ht : AllWrites AddsNoExit t) :
    exitProtocol.Wp apply op t (exitProtocol.CommitOk apply op) n held [] c :=
  Protocol.wp_of_allWrites
    (fun _ _ _ hw h hg => ⟨oneExit_of_addsNoExit hw h hg,
      fun _ _ _ _ _ _ _ hno g hg' he => hno g (exit_of_addsNoExit hw h hg' he) he⟩)
    (fun _ h => absurd h List.not_mem_nil) ht

theorem writes_addsNoExit {w : Write} (h : op.Writes w) (hop : op.enables = none) : AddsNoExit w := by
  cases h
  case setGrantExit client node exit =>
    cases exit
    · rfl
    · exact absurd hop (by simp [Op.enables])
  case setGrant => rfl
  all_goals trivial

/-- The check of `setGrantExit` finds every other exit: a grant's node exists. -/
theorem noOtherExit_of_otherExits (h : otherExits client node db = []) : NoOtherExit client node db := by
  intro g hg hexit hclient
  by_contra hne
  obtain ⟨n, hn, hid⟩ := List.mem_map.mp (db.wf.grants_node_fkey g hg)
  have hmem : n.name ∈ otherExits client node db :=
    List.mem_flatMap.mpr ⟨g, List.mem_filter.mpr ⟨hg, by simp [hexit, hclient, hne]⟩,
      List.mem_map.mpr ⟨n, List.mem_filter.mpr ⟨hn, by simp [hid]⟩, rfl⟩⟩
  rw [h] at hmem
  exact absurd hmem List.not_mem_nil

/-- The commit of a session that found no other exit. -/
theorem commit_setExit (hn : 2 ≤ n) (hop : op.enables = some (client, node)) (hno : NoOtherExit client node c) :
    exitProtocol.CommitOk apply op () n held [.setExit (client, node) true] c := by
  intro c₁ c₂ hr hg h
  obtain ⟨t, ht, hrest⟩ := applyAll_cons_ok.mp h
  obtain rfl : t = c₂ := Except.ok.inj hrest
  refine ⟨oneExit_of_setExit ht hg (hr hn client node hop hno), ?_⟩
  intro op' n' held' _ hcompat hn' client' node' hop' hno' g hg' hexit hclient
  rcases exit_of_setExit ht hg' hexit with ⟨h₁, h₂⟩ | hold
  · -- the two toggles are of one device, so they are of one node
    by_contra hne
    refine hcompat ⟨hn, hn', client, node, node', hop, ?_, fun he => hne (h₂.trans he)⟩
    rw [hop', ← hclient, h₁]
  · exact hno' g hold hexit hclient

theorem wp_setGrantExit :
    exitProtocol.Wp apply (.setGrantExit client node true) (setGrantExit client node true)
      (exitProtocol.CommitOk apply (.setGrantExit client node true)) 0 [] [] c := by
  refine Protocol.wp_bind.mpr (Protocol.wp_read fun c₁ v₁ _ _ _ => ?_)
  dsimp only
  split
  · trivial
  · split
    · trivial
    · refine Protocol.wp_bind.mpr (Protocol.wp_bind.mpr (Protocol.wp_read fun c₂ v₂ _ _ hv₂ => ?_))
      obtain rfl := Except.ok.inj hv₂
      cases hother : otherExits client node c₂ with
      | cons name names => trivial
      | nil =>
        refine Protocol.wp_write fun c₃ hr _ => ?_
        exact commit_setExit (by omega) rfl
          (hr (by omega) client node rfl (noOtherExit_of_otherExits hother))

theorem body_wp_exit (op : Op) (c : Db) :
    exitProtocol.Wp apply op op.body (exitProtocol.CommitOk apply op) 0 [] [] c := by
  by_cases hop : op.enables = none
  · exact wp_addsNoExit ((body_allWrites op).mono fun w h => writes_addsNoExit h hop)
  · match op with
    | .setGrantExit client node true => exact wp_setGrantExit

/-! ## Runs -/

/-- No two sessions in progress are past the check for another exit of one device, on different nodes. -/
def NoExitRace (s : Sys Op Db Write Lock StoreErr) : Prop :=
  ∀ i j t t', i ≠ j → s.sessions i = some t → s.sessions j = some t' → ¬ Races t.op t.done t'.op t'.done

/-- **One node exit for each device**, in every committed state of every interleaving in which no two
    sessions that enable exits of one device on different nodes are past their checks together. -/
theorem one_exit {c : Db} {s : Sys Op Db Write Lock StoreErr}
    (hc : ∀ client, (c.exitsOf client).length ≤ 1)
    (h : StepsIn apply Op.body NoExitRace (Sys.idle c) s) (client : Uuid) :
    (s.committed.exitsOf client).length ≤ 1 :=
  OneExit.length_le (Protocol.good_of_steps (π := exitProtocol) (fun op c _ => body_wp_exit op c)
    (oneExit_of_length_le hc) h) client

/-- A device with a grant of each of two nodes. -/
def exitSetup : List Op :=
  [.createNode 1 "home" "eth0" [⟨.ofBytes 192 168 1 0, 24⟩] ⟨"priv1", "pub1"⟩ "",
    .createNode 2 "office" "eth0" [⟨.ofBytes 192 168 2 0, 24⟩] ⟨"priv2", "pub2"⟩ "",
    .createClient 3 "phone" "" ⟨"priv3", "pub3"⟩ "", .setGrant 3 1, .setGrant 3 2]

/-- Both toggles run their checks before either writes. -/
def exitRace : List (Event Op) :=
  [.start 0 (.setGrantExit 3 1 true), .start 1 (.setGrantExit 3 2 true),
    .next 0, .next 0, .next 1, .next 1, .next 0, .next 0, .next 1, .next 1]

/-- **The race.** Two toggles of one device on different nodes both commit. -/
theorem setGrantExit_race : ∃ c s,
    runAll apply Op.body (fun _ _ => true) (Db.boot demoHub "") exitSetup = some c ∧
    c.grants = [⟨3, 1, false⟩, ⟨3, 2, false⟩] ∧
    fireAll apply Op.body (Sys.idle c) exitRace = some s ∧
    ¬ ∀ client, (s.committed.exitsOf client).length ≤ 1 := by
  have hrun : ((runAll apply Op.body (fun _ _ => true) (Db.boot demoHub "") exitSetup).bind fun c =>
      (fireAll apply Op.body (Sys.idle c) exitRace).map fun s => (c.grants, s.committed.exitsOf 3)) =
      some ([⟨3, 1, false⟩, ⟨3, 2, false⟩], [⟨3, 1, true⟩, ⟨3, 2, true⟩]) := by decide +kernel
  obtain ⟨c, hc, hmap⟩ := Option.bind_eq_some_iff.mp hrun
  obtain ⟨s, hs, hpair⟩ := Option.map_eq_some_iff.mp hmap
  obtain ⟨hgrants, hexits⟩ := Prod.ext_iff.mp hpair
  refine ⟨c, s, hc, hgrants, hs, fun hall => ?_⟩
  have hlen := hall 3
  rw [show s.committed.exitsOf 3 = _ from hexits] at hlen
  exact absurd hlen (by decide)

/-- Two of the first so many sessions do not race. -/
def noExitRaceBelow (n : Nat) (s : Sys Op Db Write Lock StoreErr) : Bool :=
  decide (∀ i < n, ∀ j < n, i ≠ j → ∀ t ∈ s.sessions i, ∀ t' ∈ s.sessions j, ¬ Races t.op t.done t'.op t'.done)

theorem noExitRace_of_below {n : Nat} {s : Sys Op Db Write Lock StoreErr} (hs : s.Below n)
    (h : noExitRaceBelow n s = true) : NoExitRace s := by
  have hlt : ∀ {i t}, s.sessions i = some t → i < n := by
    intro i t ht
    by_contra hle
    exact absurd (ht.symm.trans (hs i (Nat.not_lt.mp hle))) (by simp)
  intro i j t t' hij ht ht'
  exact of_decide_eq_true h i (hlt ht) j (hlt ht') hij t ht t' ht'

/-- The phone's toggles and the laptop's are all in progress together. The phone's second one makes its check
    when the first has committed, and is refused. -/
def exitsInTurn : List (Event Op) :=
  [.start 0 (.setGrantExit 3 1 true), .start 1 (.setGrantExit 3 2 true), .start 2 (.setGrantExit 4 2 true),
    .next 0, .next 1, .next 2, .next 0, .next 2, .next 0, .next 2, .next 0, .next 1, .next 2, .next 1]

/-- Two toggles of different devices overlap, and a second exit of one device is refused. -/
theorem one_exit_in_turn : ∃ c s,
    runAll apply Op.body (fun _ _ => true) (Db.boot demoHub "")
      (exitSetup ++ [.createClient 4 "laptop" "" ⟨"priv4", "pub4"⟩ "", .setGrant 4 2]) = some c ∧
    fireAll apply Op.body (Sys.idle c) exitsInTurn = some s ∧
    s.committed.grants = [⟨3, 1, true⟩, ⟨3, 2, false⟩, ⟨4, 2, true⟩] ∧
    ∀ client, (s.committed.exitsOf client).length ≤ 1 := by
  have hrun : ((runAll apply Op.body (fun _ _ => true) (Db.boot demoHub "")
      (exitSetup ++ [.createClient 4 "laptop" "" ⟨"priv4", "pub4"⟩ "", .setGrant 4 2])).bind fun c =>
      (fireAllIf apply Op.body (noExitRaceBelow 3) (Sys.idle c) exitsInTurn).map fun s =>
        (c.grants, s.committed.grants)) =
      some ([⟨3, 1, false⟩, ⟨3, 2, false⟩, ⟨4, 2, false⟩], [⟨3, 1, true⟩, ⟨3, 2, false⟩, ⟨4, 2, true⟩]) := by
    decide +kernel
  obtain ⟨c, hc, hmap⟩ := Option.bind_eq_some_iff.mp hrun
  obtain ⟨s, hs, hpair⟩ := Option.map_eq_some_iff.mp hmap
  obtain ⟨hbefore, hafter⟩ := Prod.mk.inj hpair
  have hnone : ∀ client, (c.exitsOf client).length ≤ 1 := fun client => by simp [Tables.exitsOf, hbefore]
  refine ⟨c, s, hc, fireAll_of_fireAllIf hs, hafter, one_exit hnone ?_⟩
  refine stepsIn_of_fireAllIf (n := 3) (fun _ hbelow hok => noExitRace_of_below hbelow hok) (fun _ _ => rfl) ?_ hs
  intro i op hm
  simp only [exitsInTurn, List.mem_cons, Event.start.injEq, reduceCtorEq, List.not_mem_nil, or_false] at hm
  omega

end Store
end BeautyAwg
