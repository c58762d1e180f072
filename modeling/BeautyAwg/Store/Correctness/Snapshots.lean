import BeautyAwg.Lib.Reads
import BeautyAwg.Store.Ops
import BeautyAwg.Store.Snapshot

/-!
# `Store.Correctness.Snapshots`: the queries of one `Snapshot` call

`Snapshot` runs its queries one by one on the connection pool, each on what is committed at that moment, while
transactions commit in between. What it returns need not be of one state: a client can be there without the node
that was committed before it. It is of one state if no commit changes the answer of a query still to come once
an earlier answer is out of date.

## Contents
- **Queries.** `Query`, in the order of the source; `Query.Same`: states a query cannot tell apart.
- **The call.** `Returned`: what the answers are put together to.
- **Runs.** `snapshot_linearizes`, and `snapshot_torn`.
- **Commits that meet the condition.** `keepsTables`, a check that is enough for it.
-/

namespace BeautyAwg
namespace Store

open Netip Awg Txn Reads

/-! ## Queries -/

/-- The queries of a snapshot. -/
inductive Query where
  | hub
  | nodes
  | clients
  | rules
  | grants
  | links
  deriving DecidableEq, Repr

/-- In the order of the source. -/
def Query.all : List Query := [hub, nodes, clients, rules, grants, links]

/-- The query can return the same rows from both states. -/
def Query.Same : Query → Db → Db → Prop
  | hub, c, c' => c.hub = c'.hub
  | nodes, c, c' => ∀ rows, NodesRead c.toTables rows ↔ NodesRead c'.toTables rows
  | clients, c, c' => ∀ rows, ClientsRead c.toTables rows ↔ ClientsRead c'.toTables rows
  | rules, c, c' => ∀ rows, RulesRead c.toTables rows ↔ RulesRead c'.toTables rows
  | grants, c, c' => ∀ rows, GrantsRead c.toTables rows ↔ GrantsRead c'.toTables rows
  | links, c, c' => ∀ rows, LinksRead c.toTables rows ↔ LinksRead c'.toTables rows

theorem same_equivalence (q : Query) : Equivalence q.Same := by
  cases q with
  | hub => exact ⟨fun _ => rfl, fun h => h.symm, fun h h' => h.trans h'⟩
  | _ => exact ⟨fun _ _ => Iff.rfl, fun h rows => (h rows).symm, fun h h' rows => (h rows).trans (h' rows)⟩

/-! ## The call -/

/-- A call beside the sessions of other requests. -/
abbrev Call := Reading (Sys Op Db Write Lock StoreErr) Db Query

/-- A snapshot that has not read anything yet. -/
abbrev Call.start (s : Sys Op Db Write Lock StoreErr) : Call := Reading.start Sys.committed Query.all s

/-- What the call can return when its queries have read these states. -/
def Returned (done : List (Query × Db)) (out : Snapshot) : Prop :=
  ∃ h n c r g l : Db, done = [(.hub, h), (.nodes, n), (.clients, c), (.rules, r), (.grants, g), (.links, l)] ∧
    ∃ nodes clients rules grants links, NodesRead n.toTables nodes ∧ ClientsRead c.toTables clients ∧
      RulesRead r.toTables rules ∧ GrantsRead g.toTables grants ∧ LinksRead l.toTables links ∧
      out = assemble h.hub nodes clients rules grants links

/-- Answers that are all of one state. -/
theorem snapshotOf_of_same {done : List (Query × Db)} {out : Snapshot} {c : Db}
    (hsame : ∀ p ∈ done, p.1.Same p.2 c) (hout : Returned done out) : SnapshotOf c.toTables out := by
  obtain ⟨hub, n, cl, r, g, l, rfl, nodes, clients, rules, grants, links, hn, hc, hr, hg, hl, rfl⟩ := hout
  have hhub : hub.hub = c.hub := hsame (.hub, hub) (by simp)
  refine ⟨nodes, clients, rules, grants, links, ?_, ?_, ?_, ?_, ?_, by rw [hhub]⟩
  · exact (hsame (.nodes, n) (by simp) nodes).mp hn
  · exact (hsame (.clients, cl) (by simp) clients).mp hc
  · exact (hsame (.rules, r) (by simp) rules).mp hr
  · exact (hsame (.grants, g) (by simp) grants).mp hg
  · exact (hsame (.links, l) (by simp) links).mp hl

/-! ## Runs -/

/-- The runs of a call, beside transactions in any order, whose moves satisfy `P`. -/
abbrev CallRuns (P : Call → Call → Prop) : Call → Call → Prop :=
  Runs (fire apply Op.body) Sys.committed P

/-- **A snapshot.** In every run where no commit that leaves an earlier answer out of date changes the answer of
    a query still to come, the call returns a snapshot of one state that was committed while it ran. -/
theorem snapshot_linearizes {s : Sys Op Db Write Lock StoreErr} {r : Call} {out : Snapshot}
    (hrun : CallRuns (Keeps Sys.committed Query.Same) (.start s) r) (hout : Returned r.done out) :
    ∃ c ∈ r.moments, SnapshotOf c.toTables out := by
  obtain ⟨c, hc, hsame⟩ := linearizes same_equivalence hrun
  exact ⟨c, hc, snapshotOf_of_same hsame hout⟩

/-- The answers of queries that return their rows in table order. -/
def snapshotAt (h n c r g l : Db) : Snapshot :=
  assemble h.hub n.nodeRows c.clientRows r.grantRules g.enabledGrants l.links

theorem returned_snapshotAt (h n c r g l : Db) :
    Returned [(.hub, h), (.nodes, n), (.clients, c), (.rules, r), (.grants, g), (.links, l)] (snapshotAt h n c r g l) :=
  ⟨h, n, c, r, g, l, rfl, _, _, _, _, _, nodesRead_rows n.toTables, clientsRead_rows c.toTables, List.Perm.refl _,
    List.Perm.refl _, List.Perm.refl _, rfl⟩

/-- Clients without the nodes that were committed before them. -/
theorem not_snapshotOf {c : Db} {out : Snapshot} (hnodes : out.nodes = []) (hclients : out.clients ≠ [])
    (hc : c.clients = [] ∨ c.liveNodes ≠ []) : ¬ SnapshotOf c.toTables out := by
  intro hout
  rcases hc with hnone | hlive
  · obtain ⟨x, hx⟩ := List.exists_mem_of_ne_nil _ hclients
    obtain ⟨row, hrow, -⟩ := hout.client hx
    rw [hnone] at hrow
    exact absurd hrow List.not_mem_nil
  · obtain ⟨row, hrow⟩ := List.exists_mem_of_ne_nil _ hlive
    obtain ⟨n, hn, -⟩ := hout.live hrow
    rw [hnodes] at hn
    exact absurd hn List.not_mem_nil

/-- A node and then a client are created and committed between the queries for nodes and for clients. -/
def createdMeanwhile : List (Move (Event Op)) :=
  [.read, .read,
    .sys (.start 0 (.createNode 1 "home" "eth0" [⟨.ofBytes 192 168 1 0, 24⟩] ⟨"priv", "pub"⟩ ""))] ++
  .replicate 6 (.sys (.next 0)) ++ [.sys (.start 0 (.createClient 2 "phone" "" ⟨"priv2", "pub2"⟩ ""))] ++
  .replicate 5 (.sys (.next 0)) ++ .replicate 4 .read

/-- **The defect.** The call returns the client without the node. -/
theorem snapshot_torn : ∃ r, CallRuns (fun _ _ => True) (.start (Sys.idle (Db.boot demoHub ""))) r ∧
    ∃ out, Returned r.done out ∧ ∀ c ∈ r.moments, ¬ SnapshotOf c.toTables out := by
  have hrun : ((Call.start (Sys.idle (Db.boot demoHub ""))).fireAll (fire apply Op.body) Sys.committed
      createdMeanwhile).map (fun r =>
        (r.done.map fun p => (p.1, p.2.liveNodes.length, p.2.enabledClients.map ClientRow.name),
          r.moments.all fun c => c.clients = [] ∨ c.liveNodes ≠ [])) =
      some ([(.hub, 0, []), (.nodes, 0, []), (.clients, 1, ["phone"]), (.rules, 1, ["phone"]),
        (.grants, 1, ["phone"]), (.links, 1, ["phone"])], true) := by decide +kernel
  obtain ⟨⟨sys, done, todo, moments⟩, hr, hall⟩ := Option.map_eq_some_iff.mp hrun
  refine ⟨_, runs_of_fireAll (fun _ _ _ _ _ => trivial) hr, ?_⟩
  obtain ⟨hdone, hmoments⟩ := Prod.mk.inj hall
  obtain _ | ⟨⟨_, h⟩, _ | ⟨⟨_, n⟩, _ | ⟨⟨_, c⟩, _ | ⟨⟨_, rl⟩, _ | ⟨⟨_, g⟩, _ | ⟨⟨_, l⟩, _ | _⟩⟩⟩⟩⟩⟩ := done <;>
    simp only [List.map_cons, List.map_nil, List.cons.injEq, Prod.mk.injEq, reduceCtorEq, and_false, and_true] at hdone
  obtain ⟨⟨rfl, -⟩, ⟨rfl, hlive, -⟩, ⟨rfl, -, hphone⟩, ⟨rfl, -⟩, ⟨rfl, -⟩, rfl, -⟩ := hdone
  refine ⟨snapshotAt h n c rl g l, returned_snapshotAt .., fun m hm => not_snapshotOf ?_ ?_ ?_⟩
  · show List.map Prod.snd (List.insertionSort _ _) = []
    rw [List.length_eq_zero_iff.mp hlive]
    rfl
  · intro hnil
    have hlen := congrArg List.length hnil
    have hone := congrArg List.length hphone
    simp [snapshotAt, assemble, Tables.clientRows, List.length_insertionSort] at hlen hone
    rw [hlen] at hone
    exact absurd hone (by simp)
  · exact of_decide_eq_true (List.all_eq_true.mp hmoments m hm)

/-! ### Commits that meet the condition -/

/-- The tables that a query reads are the same in both states. -/
def Query.sameTables : Query → Db → Db → Bool
  | hub, c, c' => c.hub = c'.hub
  | nodes, c, c' => c.nodes = c'.nodes ∧ c.subnets = c'.subnets ∧ c.domains = c'.domains
  | clients, c, c' => c.clients = c'.clients
  | rules, c, c' => c.grantRules = c'.grantRules
  | grants, c, c' => c.grants = c'.grants ∧ c.clients = c'.clients
  | links, c, c' => c.links = c'.links

theorem same_of_sameTables {q : Query} {c c' : Db} (h : q.sameTables c c' = true) : q.Same c c' := by
  cases q with
  | hub =>
    have hhub : c.hub = c'.hub := of_decide_eq_true h
    exact hhub
  | nodes =>
    obtain ⟨hnodes, hsubnets, hdomains⟩ := of_decide_eq_true h
    intro rows
    simp only [NodesRead, Tables.liveNodes, Tables.subnetsOf, Tables.domainsOf, hnodes, hsubnets, hdomains]
  | clients =>
    intro rows
    simp only [ClientsRead, Tables.enabledClients, of_decide_eq_true h]
  | rules =>
    intro rows
    simp only [RulesRead, of_decide_eq_true h]
  | grants =>
    obtain ⟨hgrants, hclients⟩ := of_decide_eq_true h
    intro rows
    simp only [GrantsRead, Tables.enabledGrants, hgrants, hclients]
  | links =>
    intro rows
    simp only [LinksRead, of_decide_eq_true h]

/-- The move leaves alone the tables of the queries still to come, or those of the queries that have been run. -/
def keepsTables (r r' : Call) : Bool :=
  (r.todo.all fun q => q.sameTables r.sys.committed r'.sys.committed) ||
    r'.done.all fun p => p.1.sameTables p.2 r'.sys.committed

theorem keeps_of_tables {r r' : Call} (h : keepsTables r r' = true) : Keeps Sys.committed Query.Same r r' := by
  rintro ⟨p, hp, hstale⟩ q hq
  rcases (Bool.or_eq_true _ _).mp h with htodo | hdone
  · exact same_of_sameTables (List.all_eq_true.mp htodo q hq)
  · exact absurd (same_of_sameTables (List.all_eq_true.mp hdone p hp)) hstale

/-- A client is created before the query for nodes and a node after it: the first commit changes an answer to come
    while none is out of date, the second leaves the nodes out of date and changes no answer to come. -/
def keptMeanwhile : List (Move (Event Op)) :=
  [.read, .sys (.start 0 (.createClient 2 "phone" "" ⟨"priv2", "pub2"⟩ ""))] ++ .replicate 5 (.sys (.next 0)) ++
  [.read, .sys (.start 0 (.createNode 1 "home" "eth0" [⟨.ofBytes 192 168 1 0, 24⟩] ⟨"priv", "pub"⟩ ""))] ++
  .replicate 6 (.sys (.next 0)) ++ .replicate 4 .read

/-- The call returns the client and not the node, which is how the database was between the two commits. -/
theorem snapshot_linearizes_kept : ∃ (r : Call) (out : Snapshot),
    CallRuns (Keeps Sys.committed Query.Same) (.start (Sys.idle (Db.boot demoHub ""))) r ∧ Returned r.done out ∧
    r.sys.committed.liveNodes.length = 1 ∧ out.nodes = [] ∧ out.clients.length = 1 ∧
    ∃ c ∈ r.moments, SnapshotOf c.toTables out := by
  have hrun : ((Call.start (Sys.idle (Db.boot demoHub ""))).fireAllIf (fire apply Op.body) Sys.committed keepsTables
      keptMeanwhile).map (fun r =>
        (r.done.map fun p => (p.1, p.2.liveNodes.length, p.2.enabledClients.length),
          r.sys.committed.liveNodes.length)) =
      some ([(.hub, 0, 0), (.nodes, 0, 1), (.clients, 1, 1), (.rules, 1, 1), (.grants, 1, 1), (.links, 1, 1)], 1) := by
    decide +kernel
  obtain ⟨⟨sys, done, todo, moments⟩, hr, hall⟩ := Option.map_eq_some_iff.mp hrun
  obtain ⟨hdone, hlive⟩ := Prod.mk.inj hall
  obtain _ | ⟨⟨_, h⟩, _ | ⟨⟨_, n⟩, _ | ⟨⟨_, c⟩, _ | ⟨⟨_, rl⟩, _ | ⟨⟨_, g⟩, _ | ⟨⟨_, l⟩, _ | _⟩⟩⟩⟩⟩⟩ := done <;>
    simp only [List.map_cons, List.map_nil, List.cons.injEq, Prod.mk.injEq, reduceCtorEq, and_false, and_true] at hdone
  obtain ⟨⟨rfl, -⟩, ⟨rfl, hnone, -⟩, ⟨rfl, -, hone⟩, ⟨rfl, -⟩, ⟨rfl, -⟩, rfl, -⟩ := hdone
  have hruns : CallRuns (Keeps Sys.committed Query.Same) (.start (Sys.idle (Db.boot demoHub ""))) _ :=
    runs_of_fireAllIf (fun _ _ => keeps_of_tables) hr
  have hout := returned_snapshotAt h n c rl g l
  refine ⟨_, snapshotAt h n c rl g l, hruns, hout, hlive, ?_, ?_, snapshot_linearizes hruns hout⟩
  · show List.map Prod.snd (List.insertionSort _ _) = []
    rw [List.length_eq_zero_iff.mp hnone]
    rfl
  · simpa [snapshotAt, assemble, Tables.clientRows, List.length_insertionSort] using hone

end Store
end BeautyAwg
