import BeautyAwg.Store.Connections

/-!
# `Store.Correctness.Starvation`: config downloads and the connection pool

`GetClientForExport` loads the rules of all grants while the rows of its grants query are open: it asks for
a second connection with one in hand. As many downloads at once as the pool has connections can leave each
of them with one and waiting (`reach_downloads`); the pool then stays so, and the whole panel waits. No other
call of the store asks for a connection while it holds one, so fewer downloads than connections never do
(`not_starved`).
-/

namespace BeautyAwg
namespace Store

open ConnPool

/-- Config downloads in progress. -/
def downloads (ts : List (Caller StoreCall)) : Nat := ts.countP fun t => t.op = .clientExport

/-- How many connections the call holds while it asks for another one. -/
def StoreCall.nesting : StoreCall → Nat
  | clientExport => 1
  | _ => 0

/-- Runs with at most `n` downloads in progress at any time. -/
def DownloadRuns (m n : Nat) : List (Caller StoreCall) → List (Caller StoreCall) → Prop :=
  Runs StoreCall.prog m fun ts => downloads ts ≤ n

variable {b : Nat} {k : Bool → Call} {c failed opened : Call}

/-! ## Nesting -/

theorem nests_onPool (h : ∀ ok, Nests b 0 (k ok)) : Nests b 0 (onPool k) :=
  ⟨Nat.zero_le b, fun ok => ⟨Nat.one_pos, h ok⟩⟩

theorem nests_inTx (h : ∀ ok, Nests b 0 (k ok)) : Nests b 0 (inTx k) :=
  ⟨Nat.zero_le b, fun ok => ⟨Nat.one_pos, h ok⟩⟩

/-- The rows that are open count when the next connection is asked for. -/
theorem nests_openRows {h : Nat} (hb : h ≤ b) (hfailed : Nests b h failed) (hopened : Nests b (h + 1) opened) :
    Nests b h (openRows failed opened) := by
  refine ⟨hb, fun ok => ?_⟩
  cases ok with
  | true => exact hopened
  | false => exact ⟨Nat.succ_pos h, hfailed⟩

theorem nests_readRows {h : Nat} (hk : ∀ ok, Nests b h (k ok)) : Nests b (h + 1) (readRows k) :=
  fun ok => ⟨Nat.succ_pos h, hk ok⟩

theorem nests_queryAll {h : Nat} (hb : h ≤ b) (hk : ∀ ok, Nests b h (k ok)) : Nests b h (queryAll k) :=
  nests_openRows hb (hk false) (nests_readRows hk)

/-- What follows a part that may return early. -/
theorem nests_orReturn {part : (Bool → Call) → Call}
    (hpart : ∀ k : Bool → Call, (∀ ok, Nests b 0 (k ok)) → Nests b 0 (part k)) (hc : Nests b 0 c) :
    Nests b 0 (orReturn part c) := by
  refine hpart _ fun ok => ?_
  cases ok with
  | true => exact hc
  | false => exact rfl

theorem nests_check (h : ∀ ok, Nests b 0 (k ok)) : Nests b 0 (check k) := h

theorem nests_write (op : Op) : Nests 0 0 op.call := by
  have hret : ∀ _ : Bool, Nests 0 0 .ret := fun _ => rfl
  have hquery : ∀ k : Bool → Call, (∀ ok, Nests 0 0 (k ok)) → Nests 0 0 (queryAll k) :=
    fun k => nests_queryAll (Nat.le_refl 0)
  have hcheck : ∀ k : Bool → Call, (∀ ok, Nests 0 0 (k ok)) → Nests 0 0 (check k) := fun k => nests_check
  have hpool : ∀ k : Bool → Call, (∀ ok, Nests 0 0 (k ok)) → Nests 0 0 (onPool k) := fun k => nests_onPool
  cases op with
  | createNode | createClient | enrollNode | approveNode | setNodeDomains | setGrantRules | setGrantExit =>
    exact nests_inTx hret
  | ensureHubNode =>
    exact nests_orReturn hpool (nests_orReturn hcheck (nests_orReturn hpool (nests_inTx hret)))
  | setNodeLink =>
    exact nests_orReturn hcheck (nests_orReturn hquery (nests_orReturn hcheck (nests_onPool hret)))
  | setNodeColor | setClientColor => exact nests_orReturn hcheck (nests_onPool hret)
  | rejectNode | deleteNode | renameNode | setNodeDNS | deleteClient | updateClient | renameClient | setGrant
  | deleteGrant | deleteNodeLink => exact nests_onPool hret

/-- **Only a download nests.** -/
theorem nests_prog (op : StoreCall) : Nests op.nesting 0 op.prog := by
  have hret : ∀ {b : Nat} (_ : Bool), Nests b 0 .ret := fun _ => rfl
  have hquery : ∀ k : Bool → Call, (∀ ok, Nests 0 0 (k ok)) → Nests 0 0 (queryAll k) :=
    fun k => nests_queryAll (Nat.le_refl 0)
  have hpool : ∀ {b : Nat} (k : Bool → Call), (∀ ok, Nests b 0 (k ok)) → Nests b 0 (onPool k) :=
    fun k => nests_onPool
  cases op with
  | clientExport =>
    refine nests_orReturn hpool (nests_orReturn hpool (nests_openRows (Nat.zero_le 1) rfl ?_))
    -- the rules are loaded with the grants' rows open
    refine nests_queryAll (Nat.le_refl 1) fun ok => ?_
    cases ok with
    | true => exact nests_readRows hret
    | false => exact ⟨Nat.one_pos, rfl⟩
  | nodeExport => exact nests_orReturn hpool (nests_orReturn hpool (nests_queryAll (Nat.le_refl 0) hret))
  | snapshot =>
    refine nests_orReturn hpool (nests_orReturn hquery (nests_orReturn hquery ?_))
    exact nests_orReturn hquery (nests_orReturn hquery (nests_queryAll (Nat.le_refl 0) hret))
  | write op => exact nests_write op
  | touch => exact nests_onPool hret

theorem sum_nesting (ts : List (Caller StoreCall)) : (ts.map fun t => t.op.nesting).sum = downloads ts := by
  induction ts with
  | nil => rfl
  | cons t ts ih =>
    rw [List.map_cons, List.sum_cons, ih, downloads, downloads, List.countP_cons]
    cases t.op <;> simp [StoreCall.nesting, Nat.add_comm]

/-! ## Fewer downloads than connections -/

variable {m n : Nat}

/-- A starved pool has as many downloads in progress as connections. -/
theorem not_starved {ts : List (Caller StoreCall)} (hn : n < m) (hrun : DownloadRuns m n [] ts) : ¬ Starved m ts := by
  intro hstarved
  have hle := le_of_starved nests_prog hrun hstarved
  have hfew : downloads ts ≤ n := by
    cases hrun with
    | refl => exact Nat.zero_le n
    | tail _ hstep => exact hstep.1
  rw [sum_nesting] at hle
  omega

/-! ## As many downloads as connections -/

/-- A download that has its grants' rows open and asks for the connection of the rules. -/
def stuckDownload : Caller StoreCall :=
  ⟨.clientExport, 1, loadAllGrantRules fun ok => if ok then readRows fun _ => .ret else .give .ret⟩

theorem downloads_replicate (j : Nat) : downloads (List.replicate j stuckDownload) = j := by
  rw [downloads, List.countP_replicate]
  rfl

theorem taken_replicate (j : Nat) : taken (List.replicate j stuckDownload) = j := by
  simp [taken, stuckDownload]

/-- One more download gets as far, as long as a connection is free. -/
theorem reach_next {j : Nat} (hj : j < m) (hn : j < n) :
    DownloadRuns m n (List.replicate j stuckDownload) (List.replicate (j + 1) stuckDownload) := by
  have hbound : ∀ h c, downloads (List.replicate j stuckDownload ++ [⟨.clientExport, h, c⟩]) ≤ n := by
    intro h c
    have hlast : downloads [⟨.clientExport, h, c⟩] = 1 := rfl
    rw [downloads, List.countP_append, ← downloads, ← downloads, downloads_replicate, hlast]
    exact hn
  have hfree : ∀ c, taken (List.replicate j stuckDownload ++ [⟨.clientExport, 0, c⟩]) < m := by
    intro c
    rw [taken_append, taken_replicate]
    simpa using hj
  have hone : ∀ {h h' c c'}, Step StoreCall.prog m (List.replicate j stuckDownload ++ [⟨.clientExport, h, c⟩])
      (List.replicate j stuckDownload ++ [⟨.clientExport, h', c'⟩]) →
      DownloadRuns m n (List.replicate j stuckDownload ++ [⟨.clientExport, h, c⟩])
        (List.replicate j stuckDownload ++ [⟨.clientExport, h', c'⟩]) :=
    fun hstep => Relation.ReflTransGen.single ⟨hbound _ _, hstep⟩
  -- a statement on the pool that succeeds
  have hpool : ∀ c, DownloadRuns m n (List.replicate j stuckDownload ++ [⟨.clientExport, 0, orReturn onPool c⟩])
      (List.replicate j stuckDownload ++ [⟨.clientExport, 0, c⟩]) := fun c =>
    ((hone (.take (hfree _))).trans (hone (.work true))).trans (hone .give)
  rw [List.replicate_succ']
  refine Relation.ReflTransGen.head ⟨hbound _ _, .start StoreCall.clientExport⟩ ?_
  refine ((hpool _).trans (hpool _)).trans ?_
  exact (hone (.take (hfree _))).trans (hone (.work true))

theorem reach_downloads (j : Nat) (hj : j ≤ m) (hn : j ≤ n) :
    DownloadRuns m n [] (List.replicate j stuckDownload) := by
  induction j with
  | zero => exact Relation.ReflTransGen.refl
  | succ j ih => exact (ih (Nat.le_of_succ_le hj) (Nat.le_of_succ_le hn)).trans (reach_next hj hn)

theorem starved_replicate : Starved m (List.replicate m stuckDownload) := by
  refine ⟨taken_replicate m, fun t ht _ => ?_⟩
  rw [List.eq_of_mem_replicate ht]
  exact ⟨_, rfl⟩

/-- **Config downloads starve the pool** exactly when as many may be in progress at once as the pool has
    connections. -/
theorem downloads_starve_iff : (∀ ts, DownloadRuns m n [] ts → ¬ Starved m ts) ↔ n < m := by
  constructor
  · intro h
    by_contra hle
    exact h _ (reach_downloads m (Nat.le_refl m) (Nat.not_lt.mp hle)) starved_replicate
  · exact fun hn ts hrun => not_starved hn hrun

/-- Four downloads starve a pool of four, and it stays starved whatever happens. -/
theorem four_downloads_starve : ∃ ts, Runs StoreCall.prog 4 (fun _ => True) [] ts ∧ downloads ts = 4 ∧
    Starved 4 ts ∧ ∀ ts', Runs StoreCall.prog 4 (fun _ => True) ts ts' → Starved 4 ts' := by
  have hrun : DownloadRuns 4 4 [] (List.replicate 4 stuckDownload) :=
    reach_downloads 4 (Nat.le_refl 4) (Nat.le_refl 4)
  refine ⟨_, Relation.ReflTransGen.mono (fun _ _ h => ⟨trivial, h.2⟩) _ _ hrun, downloads_replicate 4,
    starved_replicate, fun ts' hrun' => starved_replicate.of_steps hrun'⟩

end Store
end BeautyAwg
