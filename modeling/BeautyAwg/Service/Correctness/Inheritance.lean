import BeautyAwg.Service.Correctness.ExitRouting
import BeautyAwg.Service.Panel
import BeautyAwg.Store.Commits
import BeautyAwg.Store.Correctness.AccessControl

/-!
# `Service.Correctness.Inheritance`: an address that changes hands

`AllocateIP` hands out an address again as soon as its client is deleted, and `Apply` gives the hub the new peers
before the new ruleset. A client that gets an address while a ruleset with the grants of the one before it is
live, or can still become live, may use those grants. No client does so where every new client gets an address
that no such ruleset has a grant of (`grants_not_inherited`).

## Contents
- **The property.** `Granted`, `Panel.NoneInherits`.
- **The condition.** `Admits`; `Panel.Rules`: the rulesets that are live or can become so; `Panel.Quiet`.
- **Commands.** `ApplyPhase`: where the reconcile is; `commanded`: what its next command does to the two tables.
- **States.** `History`: how the committed states hang together.
- **The invariant.** `Kept`: all who have a ruleset's address have held its grant; `Panel.Inv`, step by step.
- **Runs.** `grants_not_inherited`, and `address_reuse_inherits_grant`.
-/

namespace BeautyAwg
namespace Service

open Netip Nft Awg Store PolicyRouting Txn Reads

/-! ## The property -/

/-- In one of the states a client with these keys held the grant. -/
def Granted (moments : List Db) (keys : Keypair) (g : Grant) : Prop :=
  ∃ db ∈ moments, ∃ row ∈ db.grants, ∃ c ∈ db.clients, ∃ n ∈ db.nodes,
    c.id = row.clientId ∧ n.id = row.nodeId ∧ c.keys = keys ∧ n.address.getD .invalid = g.nodeAddr

/-- Whoever the live peers give an address, and the live ruleset then accepts packets from on account of a
    grant, has held that grant itself. -/
def Panel.NoneInherits (p : Panel) : Prop :=
  ∀ conf acl, p.live.peers = some conf → p.live.acl = some acl → ∀ k ∈ conf.clients, ∀ g ∈ acl.grants,
    ∀ packet : Packet, k.address = .v4 packet.src → Opens acl g packet → Granted p.moments k.keys g

/-! ## The condition -/

/-- The snapshot's ruleset accepts packets from the address on account of the grant. -/
def Admits (s : Snapshot) (g : Grant) (a : Addr) : Prop :=
  g ∈ s.grants ∧ ∃ packet : Packet, a = .v4 packet.src ∧ Opens s g packet

theorem Admits.clientAddr {s : Snapshot} {g : Grant} {a : Addr} (h : Admits s g a) : g.clientAddr = a := by
  obtain ⟨-, packet, rfl, hopens⟩ := h
  exact (nftGrantRules_admits.mp hopens).1

/-- `nft -f` takes the snapshot's ruleset. -/
def Loads (s : Snapshot) : Prop := nftLoads s.hub s.nodes s.grants s.links = true

/-- The call can still return the snapshot, whatever its last query answers. -/
def CanReturn (r : Call) (s : Snapshot) : Prop := ∃ rest, (∀ x ∈ rest, x.1 = .links) ∧ Returned (r.done ++ rest) s

/-- The snapshots whose rulesets are live, or become so if nothing ends the reconcile under way. -/
inductive Panel.Rules (p : Panel) : Snapshot → Prop
  | live {s : Snapshot} (h : p.live.acl = some s) : p.Rules s
  | ahead {s : Snapshot} (h : .loadNFT s ∈ p.program) (hloads : Loads s) : p.Rules s
  | read {s : Snapshot} (h : CanReturn p.reading s) (hloads : Loads s) : p.Rules s

/-- No transaction commits a client at an address that such a ruleset has a grant of. -/
def Panel.Quiet (p : Panel) (a : Act) : Prop := ∀ r ∈ p.inserts a, ∀ s, p.Rules s → ∀ g, ¬ Admits s g r.address

/-! ## Commands -/

section Commands

variable {s : Snapshot} {t u : Task} {ts : List Task} {l l' : Live} {peers : Option Snapshot}

/-- The task leaves the peers and the ruleset alone, and so does all that it unfolds to. -/
def Task.RoutesOnly (t : Task) : Prop :=
  ∀ s, t ≠ .ensureIface s ∧ t ≠ .awgQuickUp s ∧ t ≠ .syncconf s ∧ t ≠ .loadNFT s

/-- The task is, or unfolds to, the command that gives the hub the snapshot's peers. -/
def Task.SetsPeers (s : Snapshot) (t : Task) : Prop := t = .ensureIface s ∨ t = .awgQuickUp s ∨ t = .syncconf s

/-- How far a reconcile has come, and the peers the hub has then. -/
inductive ApplyPhase : List Task → Option Snapshot → Prop
  | routing {ts : List Task} {peers : Option Snapshot} (hts : ∀ t ∈ ts, t.RoutesOnly) : ApplyPhase ts peers
  | peers (pre : List Task) {s : Snapshot} {t : Task} {ts : List Task} {peers : Option Snapshot}
      (hpre : ∀ u ∈ pre, u = .files) (ht : t.SetsPeers s) (hts : ∀ t ∈ ts, t.RoutesOnly) :
      ApplyPhase (pre ++ t :: .loadNFT s :: ts) peers
  | ruleset {s : Snapshot} {ts : List Task} (hts : ∀ t ∈ ts, t.RoutesOnly) : ApplyPhase (.loadNFT s :: ts) (some s)

theorem ensureRoutes_routesOnly {subnets : List Prefix} (ht : t ∈ Applier.ensureRoutes subnets) : t.RoutesOnly := by
  obtain ⟨p, -, rfl⟩ := List.mem_map.mp ht
  simp [Task.RoutesOnly]

theorem ensureExitRoutes_routesOnly {hubAddr : Addr} {mesh : List Prefix} {routes : List ExitRoute}
    (ht : t ∈ Applier.ensureExitRoutes hubAddr mesh routes) : t.RoutesOnly := by
  have htask := exitTask ht
  cases htask <;> simp [Task.RoutesOnly]

/-- A reconcile that begins is at its first phase. -/
theorem applyPhase_reconcile (s : Snapshot) (peers : Option Snapshot) : ApplyPhase (reconcile s) peers := by
  refine ApplyPhase.peers [.files] (fun u hu => List.mem_singleton.mp hu) (.inl rfl) (fun t ht => ?_)
  rcases List.mem_append.mp ht with ht | ht
  · exact ensureRoutes_routesOnly ht
  · exact ensureExitRoutes_routesOnly ht

/-- What a command does to the peers and the ruleset: neither changes, or the next of the two does, and the
    ruleset only after the peers of the same snapshot. -/
structure Commanded (c c' : List Task × Live) : Prop where
  progress : ApplyPhase c'.1 c'.2.peers
  peers : c'.2.peers = c.2.peers ∨ ∃ s, .loadNFT s ∈ c.1 ∧ c'.2.peers = some s
  ruleset : c'.2.acl = c.2.acl ∨ ∃ s, .loadNFT s ∈ c.1 ∧ Loads s ∧ c'.2.peers = some s ∧ c'.2.acl = some s ∧
    ∀ s', .loadNFT s' ∉ c'.1
  ahead : ∀ s, .loadNFT s ∈ c'.1 → .loadNFT s ∈ c.1

theorem ApplyPhase.nil : ApplyPhase [] peers := .routing fun _ ht => absurd ht List.not_mem_nil

/-- A command that fails. -/
theorem commanded_nil {c : List Task × Live} : Commanded c ([], c.2) where
  progress := .nil
  peers := .inl rfl
  ruleset := .inl rfl
  ahead _ h := absurd h List.not_mem_nil

/-- A task for the routing leaves peers and ruleset alone. -/
theorem perform_routesOnly (fault : Bool) (ht : t.RoutesOnly) :
    (t.perform fault l).1.peers = l.peers ∧ (t.perform fault l).1.acl = l.acl := by
  have hperformed := performed t fault l
  generalize (t.perform fault l).1 = l' at hperformed ⊢
  cases hperformed with
  | up he => exact absurd he (ht _).2.1
  | synced he => exact absurd he (ht _).2.2.1
  | loaded he => exact absurd he (ht _).2.2.2
  | _ => exact ⟨rfl, rfl⟩

/-- The tasks that it adds are for the routing too. -/
theorem unfolds_routesOnly (h : Unfolds l t u) (ht : t.RoutesOnly) : u.RoutesOnly := by
  cases h with
  | files s | syncconf s | awgQuickUp s => exact absurd rfl (ht s).1
  | _ => simp [Task.RoutesOnly]

theorem not_mem_routesOnly (hts : ∀ t ∈ ts, t.RoutesOnly) : .loadNFT s ∉ ts :=
  fun h => (hts _ h s).2.2.2 rfl

/-- A move of such a task has nothing to do with grants. -/
theorem commanded_routing {c' : List Task × Live} (hts : ∀ t ∈ ts, t.RoutesOnly)
    (h : Tasks.Step Task.perform (ts, l) c') : Commanded (ts, l) c' := by
  cases h with
  | @goOn t ts new _ l' fault hperform =>
    have hkeeps := perform_routesOnly (l := l) fault (hts t List.mem_cons_self)
    rw [hperform] at hkeeps
    have hrest : ∀ u ∈ new ++ ts, u.RoutesOnly := by
      intro u hu
      rcases List.mem_append.mp hu with hu | hu
      · exact unfolds_routesOnly (unfolds (by rw [hperform]) hu) (hts t List.mem_cons_self)
      · exact hts u (List.mem_cons_of_mem _ hu)
    exact ⟨.routing hrest, .inl hkeeps.1, .inl hkeeps.2, fun s hs => absurd hs (not_mem_routesOnly hrest)⟩
  | @stop t ts _ l' fault hperform =>
    have hkeeps := perform_routesOnly (l := l) fault (hts t List.mem_cons_self)
    rw [hperform] at hkeeps
    exact ⟨.nil, .inl hkeeps.1, .inl hkeeps.2, fun s hs => absurd hs List.not_mem_nil⟩

/-- The task that loads the ruleset takes the snapshot that made the peers. -/
theorem commanded_ruleset {c' : List Task × Live} (hts : ∀ t ∈ ts, t.RoutesOnly) (hl : l.peers = some s)
    (h : Tasks.Step Task.perform (.loadNFT s :: ts, l) c') : Commanded (.loadNFT s :: ts, l) c' := by
  cases h with
  | goOn hperform =>
    simp only [Task.perform] at hperform
    split at hperform
    · exact absurd (Prod.mk.inj hperform).2 (by simp)
    · rename_i hok
      obtain ⟨rfl, hnew⟩ := Prod.mk.inj hperform
      obtain rfl := Option.some.inj hnew
      simp only [Bool.or_eq_true, Bool.not_eq_true', not_or, Bool.not_eq_false] at hok
      refine ⟨.routing hts, .inl rfl, .inr ⟨s, List.mem_cons_self, hok.2, hl, rfl, fun s' => ?_⟩, fun s' hs' => ?_⟩
      · exact not_mem_routesOnly hts
      · exact absurd hs' (not_mem_routesOnly hts)
  | stop hperform =>
    simp only [Task.perform] at hperform
    split at hperform
    · obtain ⟨rfl, -⟩ := Prod.mk.inj hperform
      exact commanded_nil
    · exact absurd (Prod.mk.inj hperform).2 (by simp)

/-- The command that sets the peers, or the test before it. -/
theorem commanded_setsPeers {c' : List Task × Live} (ht : t.SetsPeers s) (hts : ∀ t ∈ ts, t.RoutesOnly)
    (h : Tasks.Step Task.perform (t :: .loadNFT s :: ts, l) c') : Commanded (t :: .loadNFT s :: ts, l) c' := by
  have hset : ∀ net, Commanded (t :: .loadNFT s :: ts, l) (.loadNFT s :: ts, ⟨net, some s, l.acl⟩) :=
    fun net => ⟨.ruleset hts, .inr ⟨s, by simp, rfl⟩, .inl rfl, fun _ => List.mem_cons_of_mem _⟩
  cases h with
  | @goOn _ _ new _ l' fault hperform =>
    rcases ht with rfl | rfl | rfl
    · obtain ⟨rfl, hnew⟩ := Prod.mk.inj hperform
      obtain rfl := Option.some.inj hnew
      split
      · refine ⟨.peers [.files] (by simp) (.inr (.inr rfl)) hts, .inl rfl, .inl rfl, fun s' hs' => ?_⟩
        simpa using hs'
      · refine ⟨.peers [] (by simp) (.inr (.inl rfl)) hts, .inl rfl, .inl rfl, fun s' hs' => ?_⟩
        simpa using hs'
    all_goals
      simp only [Task.perform] at hperform
      split at hperform
      · exact absurd (Prod.mk.inj hperform).2 (by simp)
      · obtain ⟨rfl, hnew⟩ := Prod.mk.inj hperform
        obtain rfl := Option.some.inj hnew
        exact hset _
  | @stop _ _ _ l' fault hperform =>
    rcases ht with rfl | rfl | rfl
    · exact absurd (Prod.mk.inj hperform).2 (by simp)
    all_goals
      simp only [Task.perform] at hperform
      split at hperform
      · obtain ⟨rfl, -⟩ := Prod.mk.inj hperform
        exact commanded_nil
      · exact absurd (Prod.mk.inj hperform).2 (by simp)

/-- **One command.** -/
theorem commanded {c c' : List Task × Live} (hc : ApplyPhase c.1 c.2.peers) (h : Tasks.Step Task.perform c c') :
    Commanded c c' := by
  obtain ⟨program, l⟩ := c
  generalize hpeers : l.peers = peers at hc
  cases hc with
  | routing hts => exact commanded_routing hts h
  | ruleset hts => exact commanded_ruleset hts hpeers h
  | @peers pre s t ts _ hpre ht hts =>
    cases pre with
    | nil => exact commanded_setsPeers ht hts h
    | cons u pre =>
      obtain rfl := hpre u List.mem_cons_self
      cases h with
      | @goOn _ _ new _ l' fault hperform =>
        obtain ⟨rfl, hnew⟩ := Prod.mk.inj hperform
        obtain ⟨-, hnew⟩ := Option.ite_none_left_eq_some.mp hnew
        obtain rfl := Option.some.inj hnew
        exact ⟨.peers pre (fun v hv => hpre v (List.mem_cons_of_mem _ hv)) ht hts, .inl rfl, .inl rfl,
          fun _ => List.mem_cons_of_mem _⟩
      | stop hperform =>
        obtain ⟨rfl, -⟩ := Prod.mk.inj hperform
        exact commanded_nil

end Commands

/-! ## States -/

section States

variable {moments : List Db} {c c' : Db} {rows : List ClientRow} {a : Addr} {k : Keypair}

/-- One of the rows has the address and the keys. -/
def HasAddr (rows : List ClientRow) (a : Addr) (k : Keypair) : Prop := ∃ r ∈ rows, r.address = a ∧ r.keys = k

/-- What the commit of a request about clients does, if it inserts these rows. -/
structure Committed (rows : List ClientRow) (c c' : Db) : Prop where
  clients : ∀ y ∈ c'.clients, (∃ x ∈ c.clients, SameClient x y) ∨ ∃ r ∈ rows, SameClient r y
  nodes : c'.nodes = c.nodes

theorem Committed.refl (rows : List ClientRow) (c : Db) : Committed rows c c :=
  ⟨fun y hy => .inl ⟨y, hy, .refl y⟩, rfl⟩

/-- After a commit an address is held by who held it or by a row that was inserted. -/
theorem Committed.hasAddr (h : Committed rows c c') (hk : HasAddr c'.clients a k) :
    HasAddr c.clients a k ∨ ∃ r ∈ rows, r.address = a := by
  obtain ⟨y, hy, rfl, rfl⟩ := hk
  rcases h.clients y hy with ⟨x, hx, hsame⟩ | ⟨r, hr, hsame⟩
  · exact .inl ⟨x, hx, hsame.2.2, hsame.2.1⟩
  · exact .inr ⟨r, hr, hsame.2.2⟩

/-- A call about devices writes no node. -/
theorem nodes_of_writes {op : Op} {ws : List Write} (hop : aboutClients op = true) (hws : ∀ w ∈ ws, op.Writes w)
    (h : applyAll Store.apply ws c = .ok c') : c'.nodes = c.nodes := by
  refine applyAll_induction (P := fun d : Db => d.nodes = c.nodes) (fun w hw d d' hd ih => ?_) h rfl
  rw [apply_eq_ok] at hd
  rw [← hd]
  have hwrite := hws w hw
  cases hwrite <;> first | exact ih | exact absurd hop (by simp [aboutClients])

/-- **One commit.** -/
theorem committed_fire {p : Panel} {e : Event Op} {s : Server} (hops : OpsIn (aboutClients · = true) p.reading.sys)
    (hwritten : Written Op.Writes p.reading.sys) (h : fire Store.apply Op.body p.reading.sys e = some s) :
    Committed (p.inserts (.move (.sys e))) p.db s.committed := by
  rcases committed_of_fire h with heq | ⟨i, t, rfl, ht, hret, happly⟩
  · rw [heq]
    exact .refl _ _
  · have hws := (hwritten i t ht).1
    refine ⟨fun y hy => ?_, nodes_of_writes (hops i t ht) hws happly⟩
    rcases client_of_commit hws happly hy with hold | ⟨r, hr, hsame⟩
    · exact .inl hold
    · refine .inr ⟨r, ?_, hsame⟩
      show r ∈ ((p.reading.sys.sessions i).map inserted).getD []
      rw [ht]
      exact mem_inserted hret hr

/-- The states of a run: a client keeps its keys and its address, and no other gets its id; the nodes stay. -/
structure History (moments : List Db) (c : Db) : Prop where
  now : c ∈ moments
  clients : ∀ d ∈ moments, ∀ d' ∈ moments, ∀ x ∈ d.clients, ∀ y ∈ d'.clients, x.id = y.id → SameClient x y
  nodes : ∀ d ∈ moments, d.nodes = c.nodes

/-- The history begins with the state that the panel starts from. -/
theorem History.start (c : Db) : History [c] c where
  now := List.mem_cons_self
  clients d hd d' hd' x hx y hy h := by
    rw [List.mem_singleton.mp hd] at hx
    rw [List.mem_singleton.mp hd'] at hy
    rw [client_eq_of_id c.wf hx hy h]
    exact .refl y
  nodes d hd := by rw [List.mem_singleton.mp hd]

/-- It goes on with each commit. -/
theorem History.commit (h : History moments c) (hc : Committed rows c c')
    (hdrawn : ∀ r ∈ rows, ∀ d ∈ moments, ∀ x ∈ d.clients, x.id ≠ r.id) : History (moments ++ [c']) c' := by
  have hnew : ∀ d ∈ moments, ∀ x ∈ d.clients, ∀ y ∈ c'.clients, x.id = y.id → SameClient x y := by
    intro d hd x hx y hy hid
    rcases hc.clients y hy with ⟨y₀, hy₀, hsame⟩ | ⟨r, hr, hsame⟩
    · exact (h.clients d hd c h.now x hx y₀ hy₀ (hid.trans hsame.1.symm)).trans hsame
    · exact absurd (hid.trans hsame.1.symm) (hdrawn r hr d hd x hx)
  refine ⟨List.mem_append_right _ List.mem_cons_self, fun d hd d' hd' x hx y hy hid => ?_, fun d hd => ?_⟩
  · rcases List.mem_append.mp hd with hd | hd <;> rcases List.mem_append.mp hd' with hd' | hd'
    · exact h.clients d hd d' hd' x hx y hy hid
    · rw [List.mem_singleton.mp hd'] at hy
      exact hnew d hd x hx y hy hid
    · rw [List.mem_singleton.mp hd] at hx
      exact (hnew d' hd' y hy x hx hid.symm).symm
    · rw [List.mem_singleton.mp hd] at hx
      rw [List.mem_singleton.mp hd'] at hy
      rw [client_eq_of_id c'.wf hx hy hid]
      exact .refl y
  · rw [hc.nodes]
    rcases List.mem_append.mp hd with hd | hd
    · exact h.nodes d hd
    · rw [List.mem_singleton.mp hd, hc.nodes]

end States

/-! ## The invariant -/

section Invariant

variable {moments moments' : List Db} {H H' : Addr → Keypair → Prop} {s : Snapshot} {g : Grant} {a : Addr}
  {p p' : Panel}

/-- All who have the address, by `H`, have held the grant: they are one client. -/
def Kept (moments : List Db) (H : Addr → Keypair → Prop) (g : Grant) (a : Addr) : Prop :=
  ∃ keys, Granted moments keys g ∧ ∀ k, H a k → k = keys

/-- What was kept in a part of the history was kept in all of it. -/
theorem Kept.mono (h : Kept moments H g a) (hsub : moments ⊆ moments') (hH : ∀ k, H' a k → H a k) :
    Kept moments' H' g a := by
  obtain ⟨keys, ⟨db, hdb, hrow⟩, hkeys⟩ := h
  exact ⟨keys, ⟨db, hsub hdb, hrow⟩, fun k hk => hkeys k (hH k hk)⟩

/-- The snapshot lists a client with the address and the keys. -/
def Listed (s : Snapshot) (a : Addr) (k : Keypair) : Prop := ∃ c ∈ s.clients, c.address = a ∧ c.keys = k

/-- The reconcile under way has read, or is to give the hub, a client with the address and the keys. -/
def Panel.Incoming (p : Panel) (a : Addr) (k : Keypair) : Prop :=
  (∃ d, (.clients, d) ∈ p.reading.done ∧ HasAddr d.clients a k) ∨ ∃ s, .loadNFT s ∈ p.program ∧ Listed s a k

/-- All who have the address in the database or at the hub, now or before the next reconcile reads. -/
def Panel.Users (p : Panel) (a : Addr) (k : Keypair) : Prop :=
  HasAddr p.db.clients a k ∨ (∃ s, p.live.peers = some s ∧ Listed s a k) ∨ p.Incoming a k

/-- The clients of a ruleset's own snapshot, and those that can have taken their addresses since. -/
def Panel.Successors (p : Panel) (s : Snapshot) (a : Addr) (k : Keypair) : Prop :=
  HasAddr p.db.clients a k ∨ Listed s a k

/-- The calls that run are about devices, and have written what calls write. -/
structure Panel.Inv (p : Panel) : Prop where
  ops : OpsIn (aboutClients · = true) p.reading.sys
  written : Written Op.Writes p.reading.sys
  history : History p.moments p.db
  answers : ∀ x ∈ p.reading.done, x.2 ∈ p.moments
  serial : p.program = [] ∨ p.reading.done = [] ∧ p.reading.todo = []
  progress : ApplyPhase p.program p.live.peers
  live : ∀ s, p.live.acl = some s → ∀ g a, Admits s g a → Kept p.moments p.Users g a
  ahead : ∀ s, .loadNFT s ∈ p.program → Loads s → ∀ g a, Admits s g a → Kept p.moments (p.Successors s) g a
  read : ∀ s, CanReturn p.reading s → Loads s → ∀ g a, Admits s g a → Kept p.moments (p.Successors s) g a

theorem Panel.Inv.noneInherits (h : p.Inv) : p.NoneInherits := by
  intro conf acl hconf hacl k hk g hg packet haddr hopens
  obtain ⟨keys, hgranted, hkeys⟩ := h.live acl hacl g k.address ⟨hg, packet, haddr, hopens⟩
  rw [hkeys k.keys (.inr (.inl ⟨conf, hconf, k, hk, rfl, rfl⟩))]
  exact hgranted

/-! ### What a query answers -/

/-- A listed device was in the table when the devices were read. -/
theorem hasAddr_of_listed {done : List (Query × Db)} (hout : Returned done s) {k : Keypair} (hk : Listed s a k) :
    ∃ d, (.clients, d) ∈ done ∧ HasAddr d.clients a k := by
  obtain ⟨h, n, c, r, g, l, rfl, nodes, clients, rules, grants, links, -, hclients, -, -, -, rfl⟩ := hout
  obtain ⟨x, hx, haddr, hkeys⟩ := hk
  obtain ⟨⟨id, x⟩, hmem, rfl⟩ := List.mem_map.mp hx
  obtain ⟨row, hrow, -, -, rfl⟩ := hclients.row hmem
  exact ⟨c, by simp, row, hrow, haddr, hkeys⟩

/-- The snapshot that a call returns when it has read the grants just now. -/
theorem kept_of_returned {h n c r gr l : Db} (hist : History moments gr) (hn : n ∈ moments) (hc : c ∈ moments)
    (hout : Returned [(.hub, h), (.nodes, n), (.clients, c), (.rules, r), (.grants, gr), (.links, l)] s)
    (hadm : Admits s g a) : Kept moments (fun a k => HasAddr gr.clients a k ∨ Listed s a k) g a := by
  have hlisted : ∀ k, Listed s a k → HasAddr c.clients a k := by
    intro k hk
    obtain ⟨d, hd, hkd⟩ := hasAddr_of_listed hout hk
    obtain rfl : d = c := by simpa using hd
    exact hkd
  have haddr := hadm.clientAddr
  obtain ⟨_, _, _, _, _, _, heq, nodes, clients, rules, grants, links, hnodes, hclients, -, hgrants, -, rfl⟩ := hout
  simp only [List.cons.injEq, Prod.mk.injEq, true_and, and_true] at heq
  obtain ⟨rfl, rfl, rfl, rfl, rfl, rfl⟩ := heq
  obtain ⟨row, hrow, hjoin⟩ := List.mem_filterMap.mp hadm.1
  obtain ⟨x, hx, m, hm, -, hxid, hmid, hxaddr, hmaddr, -⟩ := hnodes.grant hclients hjoin
  have hrow : row ∈ gr.grants := (List.mem_filter.mp (hgrants.mem_iff.mp hrow)).1
  have hm : m ∈ gr.nodes := hist.nodes n hn ▸ (List.mem_filter.mp hm).1
  -- the client is still there when the grants are read, and nobody else has its address
  obtain ⟨y, hy, hyid⟩ := List.mem_map.mp (gr.wf.grants_client_fkey row hrow)
  have hsame : SameClient x y := hist.clients c hc gr hist.now x hx y hy (hxid.trans hyid.symm)
  refine ⟨y.keys, ⟨gr, hist.now, row, hrow, y, hy, m, hm, hyid, hmid, rfl, hmaddr.symm⟩, fun k hk => ?_⟩
  rcases hk with ⟨z, hz, hza, rfl⟩ | hk
  · have hzy : z.address = y.address := by rw [hza, ← haddr, hxaddr, hsame.2.2]
    rw [client_eq_of_address gr.wf hz hy hzy]
  · obtain ⟨z, hz, hza, rfl⟩ := hlisted k hk
    have hzx : z.address = x.address := by rw [hza, ← haddr, hxaddr]
    rw [client_eq_of_address c.wf hz hx hzx, hsame.2.1]

/-- An answer after which the call can return: to the grants, or to the last query. -/
theorem returned_answer {done rest : List (Query × Db)} {q : Query} {d : Db} (hrest : ∀ x ∈ rest, x.1 = .links)
    (hout : Returned (done ++ (q, d) :: rest) s) : q = .links ∨ ∃ h n c r l,
      done = [(.hub, h), (.nodes, n), (.clients, c), (.rules, r)] ∧ q = .grants ∧ rest = [(.links, l)] := by
  obtain ⟨h, n, c, r, g, l, heq, -⟩ := hout
  -- from the end: the links come last, the grants before them
  have hrev := congrArg List.reverse heq
  simp only [List.reverse_append, List.reverse_cons, List.append_assoc, List.reverse_nil, List.nil_append,
    List.cons_append] at hrev
  cases hlast : rest.reverse with
  | nil =>
    rw [hlast] at hrev
    exact .inl (Prod.mk.inj (List.cons.inj hrev).1).1
  | cons x before =>
    rw [hlast] at hrev
    obtain ⟨hx, hbefore⟩ := List.cons.inj hrev
    cases before with
    | nil =>
      obtain ⟨hgrants, hdone⟩ := List.cons.inj hbefore
      refine .inr ⟨h, n, c, r, l, ?_, (Prod.mk.inj hgrants).1, ?_⟩
      · rw [← List.reverse_inj]
        exact hdone
      · rw [← List.reverse_inj, hlast, hx]
        rfl
    | cons y before =>
      have hy : y = (.grants, g) := (List.cons.inj hbefore).1
      have hmem : y ∈ rest := by
        rw [← List.mem_reverse, hlast]
        simp
      have hlinks := hrest y hmem
      rw [hy] at hlinks
      exact absurd hlinks (by simp)

/-! ### Steps -/

/-- **A commit.** Whoever gets an address anew gets none that a ruleset has a grant of. -/
theorem Panel.Inv.commit (h : p.Inv) {e : Event Op} {sys : Server}
    (hfire : fire Store.apply Op.body p.reading.sys e = some sys) (he : (Act.move (.sys e)).ofClients = true)
    (hdrawn : p.Drawn (.move (.sys e))) (hquiet : p.Quiet (.move (.sys e))) :
    Panel.Inv { p with
      reading := ⟨sys, p.reading.done, p.reading.todo, p.reading.moments ++ [sys.committed]⟩ } := by
  have hcommit := committed_fire h.ops h.written hfire
  have hold : ∀ s, p.Rules s → ∀ g a, Admits s g a → ∀ k, HasAddr sys.committed.clients a k →
      HasAddr p.db.clients a k := by
    intro s hs g a hadm k hk
    rcases hcommit.hasAddr hk with hk | ⟨r, hr, rfl⟩
    · exact hk
    · exact absurd hadm (hquiet r hr s hs g)
  refine ⟨opsIn_fire hfire (fun i op hop => ?_) h.ops, written_fire body_allWrites hfire h.written,
    h.history.commit hcommit hdrawn, fun x hx => List.mem_append_left _ (h.answers x hx), h.serial, h.progress,
    fun s hs g a hadm => ?_, fun s hs hloads g a hadm => ?_, fun s hs hloads g a hadm => ?_⟩
  · rw [hop] at he
    exact he
  · exact (h.live s hs g a hadm).mono (List.subset_append_left _ _)
      fun k hk => hk.imp (hold s (.live hs) g a hadm k) id
  · exact (h.ahead s hs hloads g a hadm).mono (List.subset_append_left _ _)
      fun k hk => hk.imp (hold s (.ahead hs hloads) g a hadm k) id
  · exact (h.read s hs hloads g a hadm).mono (List.subset_append_left _ _)
      fun k hk => hk.imp (hold s (.read hs hloads) g a hadm k) id

/-- **A query.** -/
theorem Panel.Inv.query (h : p.Inv) {q : Query} {todo : List Query} (htodo : p.reading.todo = q :: todo) :
    Panel.Inv { p with
      reading := ⟨p.reading.sys, p.reading.done ++ [(q, p.db)], todo, p.reading.moments⟩ } := by
  -- one request reconciles at a time, and this one still reads
  have hprogram : p.program = [] := by
    refine h.serial.resolve_right fun hidle => ?_
    rw [hidle.2] at htodo
    exact absurd htodo (by simp)
  refine ⟨h.ops, h.written, h.history, fun x hx => ?_, .inl hprogram, h.progress, fun s hs g a hadm => ?_, h.ahead,
    fun s hs hloads g a hadm => ?_⟩
  · rcases List.mem_append.mp hx with hx | hx
    · exact h.answers x hx
    · rw [List.mem_singleton.mp hx]
      exact h.history.now
  · refine (h.live s hs g a hadm).mono (List.Subset.refl _) fun k hk => ?_
    rcases hk with hk | hk | ⟨d, hd, hk⟩ | hk
    · exact .inl hk
    · exact .inr (.inl hk)
    · rcases List.mem_append.mp hd with hd | hd
      · exact .inr (.inr (.inl ⟨d, hd, hk⟩))
      · obtain rfl := (Prod.mk.inj (List.mem_singleton.mp hd)).2
        exact .inl hk
    · exact .inr (.inr (.inr hk))
  · obtain ⟨rest, hrest, hout⟩ := hs
    rw [List.append_assoc] at hout
    -- the snapshot shows by its links, or by the grants just read
    rcases returned_answer hrest hout with rfl | ⟨hub, n, c, r, l, hdone, rfl, rfl⟩
    · refine h.read s ⟨_, fun x hx => ?_, hout⟩ hloads g a hadm
      rcases List.mem_cons.mp hx with rfl | hx
      · rfl
      · exact hrest x hx
    · have hanswers := h.answers
      rw [hdone] at hanswers hout
      exact kept_of_returned h.history (hanswers (.nodes, n) (by simp)) (hanswers (.clients, c) (by simp)) hout hadm

theorem not_returned_links {rest : List (Query × Db)} (hrest : ∀ x ∈ rest, x.1 = .links) : ¬ Returned rest s := by
  rintro ⟨h, n, c, r, g, l, rfl, -⟩
  exact absurd (hrest (.hub, h) List.mem_cons_self) (by simp)

theorem eq_of_loadNFT_mem {s' : Snapshot} (h : .loadNFT s' ∈ reconcile s) : s' = s := by
  rcases List.mem_append.mp h with h | h
  · rcases List.mem_append.mp h with h | h
    · simpa [Applier.apply] using h
    · exact absurd rfl (ensureRoutes_routesOnly h s').2.2.2
  · exact absurd rfl (ensureExitRoutes_routesOnly h s').2.2.2

/-- **Rendering.** -/
theorem Panel.Inv.render (h : p.Inv) {out : Snapshot} (htodo : p.reading.todo = [])
    (hout : Returned p.reading.done out) :
    Panel.Inv { p with reading := { p.reading with done := [] }, program := reconcile out } := by
  refine ⟨h.ops, h.written, h.history, fun x hx => absurd hx List.not_mem_nil, .inr ⟨rfl, htodo⟩,
    applyPhase_reconcile out _, fun s hs g a hadm => ?_, fun s hs hloads g a hadm => ?_, fun s hs => ?_⟩
  · refine (h.live s hs g a hadm).mono (List.Subset.refl _) fun k hk => ?_
    rcases hk with hk | hk | ⟨d, hd, -⟩ | ⟨s', hs', hk⟩
    · exact .inl hk
    · exact .inr (.inl hk)
    · exact absurd hd List.not_mem_nil
    · obtain rfl := eq_of_loadNFT_mem hs'
      exact .inr (.inr (.inl (hasAddr_of_listed hout hk)))
  · obtain rfl := eq_of_loadNFT_mem hs
    refine h.read s ⟨[], fun x hx => absurd hx List.not_mem_nil, ?_⟩ hloads g a hadm
    rw [List.append_nil]
    exact hout
  · obtain ⟨rest, hrest, hret⟩ := hs
    exact absurd hret (not_returned_links hrest)

/-- **A command.** A ruleset becomes live when the peers are already those of its snapshot. -/
theorem Panel.Inv.command (h : p.Inv) {c : List Task × Live}
    (hstep : Tasks.Step Task.perform (p.program, p.live) c) :
    Panel.Inv { p with program := c.1, live := c.2 } := by
  have hc := commanded h.progress hstep
  have hidle : p.reading.done = [] ∧ p.reading.todo = [] := by
    refine h.serial.resolve_left fun hnil => ?_
    rw [hnil] at hstep
    cases hstep
  refine ⟨h.ops, h.written, h.history, h.answers, .inr hidle, hc.progress, fun s hs g a hadm => ?_,
    fun s hs => h.ahead s (hc.ahead s hs), h.read⟩
  -- the ruleset is the old one, with who held its addresses still listed, or the one that goes with the peers
  rcases hc.ruleset with hsame | ⟨s', hmem, hloads, hpeers, hacl, hlast⟩
  · refine (h.live s (hsame ▸ hs) g a hadm).mono (List.Subset.refl _) fun k hk => ?_
    rcases hk with hk | ⟨conf, hconf, hk⟩ | hk | ⟨s', hs', hk⟩
    · exact .inl hk
    · rcases hc.peers with hsame | ⟨s', hmem, hpeers⟩
      · exact .inr (.inl ⟨conf, hsame ▸ hconf, hk⟩)
      · obtain rfl := Option.some.inj (hpeers.symm.trans hconf)
        exact .inr (.inr (.inr ⟨s', hmem, hk⟩))
    · exact .inr (.inr (.inl hk))
    · exact .inr (.inr (.inr ⟨s', hc.ahead s' hs', hk⟩))
  · obtain rfl := Option.some.inj (hacl.symm.trans hs)
    refine (h.ahead s' hmem hloads g a hadm).mono (List.Subset.refl _) fun k hk => ?_
    rcases hk with hk | ⟨conf, hconf, hk⟩ | ⟨d, hd, -⟩ | ⟨s'', hs'', -⟩
    · exact .inl hk
    · obtain rfl := Option.some.inj (hpeers.symm.trans hconf)
      exact .inr hk
    · have hd : (.clients, d) ∈ p.reading.done := hd
      rw [hidle.1] at hd
      exact absurd hd List.not_mem_nil
    · exact absurd hs'' (hlast s'')

/-- **The end**, wherever it comes. -/
theorem Panel.Inv.abort (h : p.Inv) :
    Panel.Inv { p with reading := { p.reading with done := [], todo := [] }, program := [] } := by
  refine ⟨h.ops, h.written, h.history, fun x hx => absurd hx List.not_mem_nil, .inl rfl, .nil, fun s hs g a hadm => ?_,
    fun s hs => absurd hs List.not_mem_nil, fun s hs => ?_⟩
  · refine (h.live s hs g a hadm).mono (List.Subset.refl _) fun k hk => ?_
    rcases hk with hk | hk | ⟨d, hd, -⟩ | ⟨s', hs', -⟩
    · exact .inl hk
    · exact .inr (.inl hk)
    · exact absurd hd List.not_mem_nil
    · exact absurd hs' List.not_mem_nil
  · obtain ⟨rest, hrest, hret⟩ := hs
    exact absurd hret (not_returned_links hrest)

/-- **Step.** -/
theorem Panel.Inv.step (h : p.Inv) {a : Act} (ha : a.ofClients = true) (hdrawn : p.Drawn a) (hquiet : p.Quiet a)
    (hstep : p.Step a p') : p'.Inv := by
  cases hstep with
  | @move m r hfire =>
    cases m with
    | sys e =>
      obtain ⟨sys, hsys, rfl⟩ := Option.map_eq_some_iff.mp hfire
      exact h.commit hsys ha hdrawn hquiet
    | read =>
      simp only [Reading.fire] at hfire
      split at hfire
      · rename_i q todo htodo
        obtain rfl := Option.some.inj hfire
        exact h.query htodo
      · exact absurd hfire (by simp)
  | lock hdone htodo hprogram =>
    exact ⟨h.ops, h.written, h.history, h.answers, .inl hprogram, h.progress, h.live, h.ahead, h.read⟩
  | render htodo hout => exact h.render htodo hout
  | command hcommand => exact h.command hcommand
  | abort => exact h.abort

end Invariant

/-! ## Runs -/

/-- The hub has been given nothing yet, or the tables of these peers and rulesets, of this state. -/
structure LoadedFrom (c : Db) (l : Live) : Prop where
  peers : ∀ s, l.peers = some s → SnapshotOf c.toTables s
  ruleset : ∀ s, l.acl = some s → SnapshotOf c.toTables s

/-- A hub that runs what was made from the stored state meets the invariant. -/
theorem LoadedFrom.inv {c : Db} {l : Live} (h : LoadedFrom c l) : (Panel.start c l).Inv := by
  have hreturned : ∀ s, SnapshotOf c.toTables s → Returned (Query.all.map fun q => (q, c)) s := by
    rintro s ⟨nodes, clients, rules, grants, links, hs⟩
    exact ⟨c, c, c, c, c, c, rfl, nodes, clients, rules, grants, links, hs⟩
  have hidle : ∀ i, (Panel.start c l).reading.sys.sessions i = none := fun _ => rfl
  refine ⟨fun i t ht => absurd ((hidle i).symm.trans ht) (by simp),
    fun i t ht => absurd ((hidle i).symm.trans ht) (by simp), .start c, fun x hx => absurd hx List.not_mem_nil,
    .inl rfl, .nil, fun s hs g a hadm => ?_, fun s hs => absurd hs List.not_mem_nil, fun s hs => ?_⟩
  · have hkept := kept_of_returned (.start c) List.mem_cons_self List.mem_cons_self (hreturned s (h.ruleset s hs)) hadm
    refine hkept.mono (List.Subset.refl _) fun k hk => ?_
    rcases hk with hk | ⟨conf, hconf, hk⟩ | ⟨d, hd, -⟩ | ⟨s', hs', -⟩
    · exact .inl hk
    · obtain ⟨d, hd, hk⟩ := hasAddr_of_listed (hreturned conf (h.peers conf hconf)) hk
      obtain ⟨q, -, hq⟩ := List.mem_map.mp hd
      obtain rfl := (Prod.mk.inj hq).2
      exact .inl hk
    · exact absurd hd List.not_mem_nil
    · exact absurd hs' List.not_mem_nil
  · obtain ⟨rest, hrest, hret⟩ := hs
    exact absurd hret (not_returned_links hrest)

/-- **No client inherits another's access.** Whatever requests about clients come and however their transactions
    and reconciles are interleaved, cut short or left out: while no transaction commits a client at an address
    that a ruleset has a grant of which is live or which the reconcile under way can make so, every client that
    the live peers give an address has held each grant on account of which the live ruleset accepts its packets. -/
theorem grants_not_inherited {c : Db} {l : Live} {p : Panel} (hl : LoadedFrom c l)
    (hrun : Panel.ClientRuns Panel.Quiet (.start c l) p) : p.NoneInherits := by
  have hinv : p.Inv := by
    induction hrun with
    | refl => exact hl.inv
    | tail _ hstep ih =>
      obtain ⟨a, ⟨ha, hdrawn, hquiet⟩, hstep⟩ := hstep
      exact ih.step ha hdrawn hquiet hstep
  exact hinv.noneInherits

/-- A home server. -/
def homeAlone : List Op := [.createNode 1 "home" "eth0" [⟨.ofBytes 192 168 1 0, 24⟩] ⟨"priv1", "pub1"⟩ ""]

/-- A device's grant of one LAN. -/
def phoneGrant : Grant :=
  ⟨.ofBytes 10 8 0 3, .ofBytes 10 8 0 2, [⟨.ofBytes 192 168 1 0, 24⟩], [], false, false, "", []⟩

/-- A new flow from the phone's address into the server's LAN. -/
def phonePacket : Packet where
  src := 0x0a080003
  dst := 0xc0a8010a
  oif := "awg0"
  proto := .tcp
  dport := 443
  ct := .new

theorem opens_phonePacket (s : Snapshot) : Opens s phoneGrant phonePacket :=
  nftGrantRules_admits.mpr ⟨rfl, .inr (.inr (.inl ⟨rfl, rfl, _, List.mem_singleton_self _, by decide⟩))⟩

/-- A request whose transaction takes so many steps, with no other beside it. -/
def request (op : Op) (steps : Nat) : List Act :=
  .move (.sys (.start 0 op)) :: .replicate steps (.move (.sys (.next 0)))

/-- A reconcile, up to its so many-th command. -/
def reconcileActs (commands : Nat) : List Act :=
  .lock :: .replicate 6 (.move .read) ++ .render :: .replicate commands .command

/-- The phone is created, gets its grant and is reconciled. -/
def phoneGranted : List Act :=
  request (.createClient 2 "phone" "" ⟨"priv2", "pub2"⟩ "") 5 ++ request (.setGrant 2 1) 2 ++ reconcileActs 11

/-- The phone is deleted when its grant is live, and the guest gets its address. The reconcile that follows has
    given the hub the peers and not yet the ruleset. -/
def addressReused : List Act :=
  phoneGranted ++ request (.deleteClient 2) 2 ++ request (.createClient 3 "guest" "" ⟨"priv3", "pub3"⟩ "") 5 ++
    reconcileActs 4

/-- **The defect.** Nothing fails, and the guest's packets into the LAN are accepted on account of the grant that
    the phone had. -/
theorem address_reuse_inherits_grant : ∃ c l p, LoadedFrom c l ∧
    Panel.ClientRuns (fun _ _ => True) (.start c l) p ∧ ¬ p.NoneInherits := by
  have hrun : ((runAll Store.apply Op.body (fun _ _ => true) (Db.boot demoHub "") homeAlone).bind fun c =>
      ((Panel.start c demoHost).runAll (fun p a => a.ofClients && decide (p.Drawn a)) addressReused).map fun p =>
        (p.live.peers.map Snapshot.clients, p.live.acl.map Snapshot.grants,
          p.moments.all fun db => db.grants.all fun row => db.clients.all fun c =>
            c.id ≠ row.clientId ∨ c.keys ≠ ⟨"priv3", "pub3"⟩)) =
      some (some [⟨"guest", .ofBytes 10 8 0 3, ⟨"priv3", "pub3"⟩, "", ""⟩], some [phoneGrant], true) := by
    decide +kernel
  obtain ⟨c, -, hc⟩ := Option.bind_eq_some_iff.mp hrun
  obtain ⟨p, hp, hlast⟩ := Option.map_eq_some_iff.mp hc
  obtain ⟨hpeers, hlast⟩ := Prod.mk.inj hlast
  obtain ⟨hacl, hnever⟩ := Prod.mk.inj hlast
  refine ⟨c, demoHost, p, ⟨fun s hs => absurd hs (by simp [demoHost]), fun s hs => absurd hs (by simp [demoHost])⟩,
    Panel.runs_of_runAll (fun q a hok => ?_) hp, fun hnone => ?_⟩
  · rw [Bool.and_eq_true, decide_eq_true_eq] at hok
    exact ⟨hok.1, hok.2, trivial⟩
  · obtain ⟨conf, hconf, hclients⟩ := Option.map_eq_some_iff.mp hpeers
    obtain ⟨acl, hacl, hgrants⟩ := Option.map_eq_some_iff.mp hacl
    obtain ⟨db, hdb, row, hrow, x, hx, n, -, hid, -, hkeys, -⟩ := hnone conf acl hconf hacl
      ⟨"guest", .ofBytes 10 8 0 3, ⟨"priv3", "pub3"⟩, "", ""⟩ (hclients ▸ List.mem_singleton_self _) phoneGrant
      (hgrants ▸ List.mem_singleton_self _) phonePacket rfl (opens_phonePacket acl)
    have hfree := List.all_eq_true.mp (List.all_eq_true.mp (List.all_eq_true.mp hnever db hdb) row hrow) x hx
    rcases of_decide_eq_true hfree with hne | hne
    · exact hne hid
    · exact hne hkeys

/-- The task loads no ruleset. -/
def Task.loadsNothing : Task → Bool
  | .loadNFT _ => false
  | _ => true

/-- A client is inserted only when no ruleset can come of the queries and commands under way, and the live one
    has no grant of its address. -/
def Panel.calm (p : Panel) (a : Act) : Bool :=
  (p.inserts a).all fun r => decide (p.reading.done.length < 5) && p.program.all Task.loadsNothing &&
    p.live.acl.all fun s => s.grants.all fun g => decide (g.clientAddr ≠ r.address)

/-- Only the answer to the last query may be open. -/
theorem not_canReturn_of_short {r : Call} {s : Snapshot} (h : r.done.length < 5) : ¬ CanReturn r s := by
  rintro ⟨rest, hrest, _, _, _, _, g, _, hdone, -⟩
  have hgrants : (r.done ++ rest)[4]? = some (.grants, g) := by rw [hdone]; rfl
  rw [List.getElem?_append_right (Nat.le_of_lt_succ h)] at hgrants
  exact absurd (hrest _ (List.mem_of_getElem? hgrants)) (by simp)

/-- An act that passes the test is a quiet one. -/
theorem quiet_of_calm {p : Panel} {a : Act} (h : p.calm a = true) : p.Quiet a := by
  intro r hr s hs g hadm
  have hcalm := List.all_eq_true.mp h r hr
  simp only [Bool.and_eq_true, decide_eq_true_eq] at hcalm
  obtain ⟨⟨hshort, hprogram⟩, hlive⟩ := hcalm
  cases hs with
  | live hacl =>
    rw [hacl, Option.all_some] at hlive
    exact of_decide_eq_true (List.all_eq_true.mp hlive g hadm.1) hadm.clientAddr
  | ahead hload _ => exact absurd (List.all_eq_true.mp hprogram _ hload) (by simp [Task.loadsNothing])
  | read hcan _ => exact not_canReturn_of_short hshort hcan

/-- The phone is deleted and reconciled away, and the guest gets its address and a grant of its own. Its request
    begins before the ruleset without the phone's grant is loaded and commits after that. -/
def addressHandedOver : List Act :=
  phoneGranted ++ request (.deleteClient 2) 2 ++ reconcileActs 4 ++
    .move (.sys (.start 0 (.createClient 3 "guest" "" ⟨"priv3", "pub3"⟩ ""))) ::
    .replicate 3 (.move (.sys (.next 0))) ++ .command :: .replicate 2 (.move (.sys (.next 0))) ++
    .replicate 9 .command ++ request (.setGrant 3 1) 2 ++ reconcileActs 14

/-- The guest has the phone's address and the phone's access, and holds the grant itself. -/
theorem grants_not_inherited_guest : ∃ c p, Panel.ClientRuns Panel.Quiet (.start c demoHost) p ∧
    (∃ db ∈ p.moments, db.clients.map (fun c => (c.name, c.address)) = [("phone", .ofBytes 10 8 0 3)]) ∧
    p.live.peers.map Snapshot.clients = some [⟨"guest", .ofBytes 10 8 0 3, ⟨"priv3", "pub3"⟩, "", ""⟩] ∧
    p.live.acl.map Snapshot.grants = some [phoneGrant] ∧ p.NoneInherits := by
  have hrun : ((runAll Store.apply Op.body (fun _ _ => true) (Db.boot demoHub "") homeAlone).bind fun c =>
      ((Panel.start c demoHost).runAll (fun p a => a.ofClients && decide (p.Drawn a) && p.calm a)
        addressHandedOver).map fun p =>
          (p.live.peers.map Snapshot.clients, p.live.acl.map Snapshot.grants, p.moments.any fun db =>
            decide (db.clients.map (fun c => (c.name, c.address)) = [("phone", .ofBytes 10 8 0 3)]))) =
      some (some [⟨"guest", .ofBytes 10 8 0 3, ⟨"priv3", "pub3"⟩, "", ""⟩], some [phoneGrant], true) := by
    decide +kernel
  obtain ⟨c, -, hc⟩ := Option.bind_eq_some_iff.mp hrun
  obtain ⟨p, hp, hlast⟩ := Option.map_eq_some_iff.mp hc
  obtain ⟨hpeers, hlast⟩ := Prod.mk.inj hlast
  obtain ⟨hacl, hphone⟩ := Prod.mk.inj hlast
  obtain ⟨db, hdb, hphone⟩ := List.any_eq_true.mp hphone
  have hruns : Panel.ClientRuns Panel.Quiet (.start c demoHost) p := by
    refine Panel.runs_of_runAll (fun q a hok => ?_) hp
    simp only [Bool.and_eq_true, decide_eq_true_eq] at hok
    exact ⟨hok.1.1, hok.1.2, quiet_of_calm hok.2⟩
  have hsettled : LoadedFrom c demoHost :=
    ⟨fun s hs => absurd hs (by simp [demoHost]), fun s hs => absurd hs (by simp [demoHost])⟩
  exact ⟨c, p, hruns, ⟨db, hdb, of_decide_eq_true hphone⟩, hpeers, hacl, grants_not_inherited hsettled hruns⟩

end Service
end BeautyAwg
