import BeautyAwg.Store.Ops

/-!
# `Store.Correctness.Addresses`: tunnel addresses never collide

No constraint of the schema spans the two tables that hold tunnel addresses: that a node and a client
never share one rests on `allocateIP` alone. The invariant `AddrInv` is kept by every interleaving of the
store's transactions, in rely/guarantee form: while a session holds the allocation lock the others can
only free addresses (or register the hub's own), so the address it found free is still free when it
commits.

## Contents
- **One allocation.** `allocLoop_spec`, `lastAddr_greatest`.
- **The invariant.** `HostAddr`, `AddrInv`; `Neutral` writes keep it and take no pool address.
- **The protocol.** `addrProtocol`, `body_wp`, `addresses_distinct`.
-/

namespace BeautyAwg
namespace Store

open Netip Awg Txn

/-! ## One allocation -/

/-- What the loop returns is a free address of the pool above its starting point. -/
theorem allocLoop_spec {pool : Prefix} {broadcast : Addr} {used : List Addr} {fuel : Nat} {a₀ a : Addr}
    (h : allocLoop pool broadcast used fuel a₀ = some a) :
    pool.contains a = true ∧ a ≠ broadcast ∧ a ∉ used ∧ a₀.isValid = true ∧ a₀.toNat ≤ a.toNat := by
  induction fuel generalizing a₀ with
  | zero => exact absurd h (by simp [allocLoop])
  | succ n ih =>
    unfold allocLoop at h
    split at h
    · rename_i hin
      split at h
      · obtain ⟨hc, hb, hu, hv, hle⟩ := ih h
        rw [Addr.toNat_next hv] at hle
        exact ⟨hc, hb, hu, hin.1, by omega⟩
      · rename_i hfree
        obtain rfl := Option.some.inj h
        exact ⟨hin.2, fun hb => hfree (Or.inl hb), fun hu => hfree (Or.inr hu), hin.1, Nat.le_refl _⟩
    · exact absurd h (by simp)

/-- The address with all host bits set is the greatest of an IPv4 prefix. -/
theorem lastAddr_greatest {pool : Prefix} (hp : pool.is4 = true) :
    ∃ l, lastAddr pool = some l ∧ pool.contains l = true ∧
      ∀ a, pool.contains a = true → a.toNat ≤ l.toNat ∧ (l.toNat ≤ a.toNat → a = l) := by
  obtain ⟨x, bits⟩ := pool
  cases x with
  | invalid | v6 => exact absurd hp (by simp [Prefix.is4, Addr.is4])
  | v4 x =>
    have hb : bits ≤ 32 := by simpa [Prefix.is4, Addr.is4] using hp
    have hpos : 0 < 2 ^ (32 - bits) := Nat.two_pow_pos _
    have hle : 2 ^ (32 - bits) ≤ 2 ^ 32 := Nat.pow_le_pow_right (by omega) (by omega)
    have hdm := Nat.div_add_mod x.toNat (2 ^ (32 - bits))
    have hmod := Nat.mod_lt x.toNat hpos
    have hx := x.isLt
    have hcomm := Nat.mul_comm (2 ^ (32 - bits)) (x.toNat / 2 ^ (32 - bits))
    let l : BitVec 32 := x >>> (32 - bits) <<< (32 - bits) ||| BitVec.ofNat 32 (2 ^ (32 - bits) - 1)
    -- the host bits fill what the shift cleared
    have hl : l.toNat = x.toNat / 2 ^ (32 - bits) * 2 ^ (32 - bits) + (2 ^ (32 - bits) - 1) := by
      have hshift : (x >>> (32 - bits) <<< (32 - bits)).toNat = (x.toNat / 2 ^ (32 - bits)) <<< (32 - bits) := by
        rw [toNat_clear, Nat.shiftLeft_eq]
      have hmask : (BitVec.ofNat 32 (2 ^ (32 - bits) - 1)).toNat = 2 ^ (32 - bits) - 1 := by
        rw [BitVec.toNat_ofNat]
        exact Nat.mod_eq_of_lt (by omega)
      rw [BitVec.toNat_or, hshift, hmask, ← Nat.shiftLeft_add_eq_or_of_lt (by omega), Nat.shiftLeft_eq]
    have hdiv : l.toNat / 2 ^ (32 - bits) = x.toNat / 2 ^ (32 - bits) := by
      rw [hl, Nat.add_comm, Nat.add_mul_div_right _ _ hpos, Nat.div_eq_of_lt (by omega), Nat.zero_add]
    refine ⟨.v4 l, rfl, contains_v4.mpr ⟨x, rfl, hb, hdiv.symm⟩, fun a ha => ?_⟩
    cases a with
    | invalid | v6 => exact absurd ha (by simp [Prefix.contains])
    | v4 y =>
      obtain ⟨z, hz, -, hq⟩ := contains_v4.mp ha
      obtain rfl := Addr.v4.inj hz
      simp only at hq
      have hy := Nat.div_add_mod y.toNat (2 ^ (32 - bits))
      have hymod := Nat.mod_lt y.toNat hpos
      rw [← hq] at hy
      simp only [Addr.toNat, hl]
      refine ⟨by omega, fun h => ?_⟩
      exact congrArg Addr.v4 (BitVec.eq_of_toNat_eq (by omega))

/-- An address that the pool of `hub` can hand out. -/
structure HostAddr (hub : Hub) (a : Addr) : Prop where
  inPool : hub.poolCIDR.contains a = true
  ne_network : a ≠ hub.poolCIDR.masked.addr
  ne_last : lastAddr hub.poolCIDR ≠ some a
  ne_hub : a ≠ hub.address

/-- The address `allocateIP` computes from the hub and the held addresses. -/
theorem allocLoop_host {hub : Hub} {held : List Addr} {broadcast a : Addr} {fuel : Nat}
    (hb : lastAddr hub.poolCIDR = some broadcast)
    (h : allocLoop hub.poolCIDR broadcast (hub.address :: held) fuel hub.poolCIDR.masked.addr.next = some a) :
    HostAddr hub a ∧ a ∉ held := by
  obtain ⟨hc, hne, hu, hv, hle⟩ := allocLoop_spec h
  rw [Addr.toNat_next hv] at hle
  rw [List.mem_cons, not_or] at hu
  refine ⟨⟨hc, fun he => ?_, fun he => hne (Option.some.inj (he.symm.trans hb)), hu.1⟩, hu.2⟩
  rw [he] at hle
  omega

/-! ## The invariant -/

/-- No tunnel address is held twice across the tables, and all but the hub node's are host addresses of
    the hub's pool. -/
structure AddrInv (hub : Hub) (db : Db) : Prop where
  hub_eq : db.hub = hub
  disjoint : ∀ n ∈ db.nodes, ∀ c ∈ db.clients, n.address ≠ some c.address
  client_host : ∀ c ∈ db.clients, HostAddr hub c.address
  node_host : ∀ n ∈ db.nodes, ∀ a, n.address = some a →
    HostAddr hub a ∨ n.isHub = true ∧ a = hub.address

variable {hub : Hub} {db db' : Db}

/-- With the constraints of the two tables, the invariant makes all held addresses distinct. -/
theorem AddrInv.nodup (h : AddrInv hub db) : db.heldAddrs.Nodup := by
  refine List.nodup_append.mpr ⟨db.wf.nodes_address_key, db.wf.clients_address_key, ?_⟩
  intro a ha b hb hab
  obtain ⟨n, hn, hna⟩ := List.mem_filterMap.mp ha
  obtain ⟨c, hc, rfl⟩ := List.mem_map.mp hb
  exact h.disjoint n hn c hc (hab ▸ hna)

/-- A write that gives no pool address to anyone: it may take addresses away, register the hub's own for
    the hub node, and change anything else. -/
def Neutral (hub : Hub) : Write → Prop
  | .insertNode r => r.address = none ∨ r.isHub = true ∧ r.address = some hub.address
  | .updateNode _ f => ∀ n, (f n).address = n.address ∧ (f n).isHub = n.isHub
  | .insertClient _ => False
  | .updateClient _ f => ∀ c, (f c).address = c.address
  | _ => True

/-- The nodes and clients after a neutral write hold addresses that they held before it. -/
theorem neutral_rows {w : Write} (hw : Neutral hub w) (h : apply w db = .ok db') :
    db'.hub = db.hub ∧
      (∀ n ∈ db'.nodes, n.address = none ∨ (n.isHub = true ∧ n.address = some hub.address) ∨
        ∃ m ∈ db.nodes, n.address = m.address ∧ n.isHub = m.isHub) ∧
      ∀ c ∈ db'.clients, ∃ d ∈ db.clients, c.address = d.address := by
  rw [apply_eq_ok] at h
  rw [← h]
  have keepN : ∀ n ∈ db.nodes, n.address = none ∨ (n.isHub = true ∧ n.address = some hub.address) ∨
      ∃ m ∈ db.nodes, n.address = m.address ∧ n.isHub = m.isHub := fun n hn => Or.inr (Or.inr ⟨n, hn, rfl, rfl⟩)
  have keepC : ∀ c ∈ db.clients, ∃ d ∈ db.clients, c.address = d.address := fun c hc => ⟨c, hc, rfl⟩
  cases w with
  | insertNode r =>
    refine ⟨rfl, fun n hn => ?_, keepC⟩
    rcases List.mem_append.mp hn with hn | hn
    · exact keepN n hn
    · rw [List.mem_singleton.mp hn]
      rcases hw with hw | hw
      · exact Or.inl hw
      · exact Or.inr (Or.inl hw)
  | updateNode id f =>
    refine ⟨rfl, fun n hn => ?_, keepC⟩
    obtain ⟨m, hm, rfl⟩ := List.mem_map.mp hn
    refine Or.inr (Or.inr ⟨m, hm, ?_⟩)
    split
    · exact hw m
    · exact ⟨rfl, rfl⟩
  | deleteNode id => exact ⟨rfl, fun n hn => keepN n (List.mem_filter.mp hn).1, keepC⟩
  | insertClient r => exact absurd hw id
  | updateClient id f =>
    refine ⟨rfl, keepN, fun c hc => ?_⟩
    obtain ⟨d, hd, rfl⟩ := List.mem_map.mp hc
    refine ⟨d, hd, ?_⟩
    split
    · exact hw d
    · rfl
  | deleteClient id => exact ⟨rfl, keepN, fun c hc => keepC c (List.mem_filter.mp hc).1⟩
  | insertSubnet | deleteSubnet | insertDomain | deleteDomain | insertGrant | setExit | deleteGrant
  | insertRule | deleteRule | insertLink | deleteLink => exact ⟨rfl, keepN, keepC⟩

/-- A write that brings in no address keeps the invariant. -/
theorem neutral_inv {w : Write} (hw : Neutral hub w) (h : apply w db = .ok db') (hinv : AddrInv hub db) :
    AddrInv hub db' := by
  obtain ⟨hh, hn, hc⟩ := neutral_rows hw h
  refine ⟨hh.trans hinv.hub_eq, fun n hnm c hcm => ?_, fun c hcm => ?_, fun n hnm a ha => ?_⟩
  · obtain ⟨d, hd, hcd⟩ := hc c hcm
    rcases hn n hnm with hnone | ⟨-, hhub⟩ | ⟨m, hm, hma, -⟩
    · simp [hnone]
    · rw [hhub, hcd]
      exact fun he => (hinv.client_host d hd).ne_hub (Option.some.inj he).symm
    · rw [hma, hcd]
      exact hinv.disjoint m hm d hd
  · obtain ⟨d, hd, hcd⟩ := hc c hcm
    exact hcd ▸ hinv.client_host d hd
  · rcases hn n hnm with hnone | ⟨hisHub, hhub⟩ | ⟨m, hm, hma, hmh⟩
    · exact absurd (hnone.symm.trans ha) (by simp)
    · exact Or.inr ⟨hisHub, Option.some.inj (ha.symm.trans hhub)⟩
    · rw [hmh]
      exact hinv.node_host m hm a (hma.symm.trans ha)

/-- No address but the hub's is held after a neutral write that was not held before it. -/
theorem neutral_held {w : Write} (hw : Neutral hub w) (h : apply w db = .ok db') {a : Addr}
    (ha : a ∈ db'.heldAddrs) : a ∈ db.heldAddrs ∨ a = hub.address := by
  obtain ⟨-, hn, hc⟩ := neutral_rows hw h
  rcases List.mem_append.mp ha with ha | ha
  · obtain ⟨n, hnm, hna⟩ := List.mem_filterMap.mp ha
    rcases hn n hnm with hnone | ⟨-, hhub⟩ | ⟨m, hm, hma, -⟩
    · exact absurd (hnone.symm.trans hna) (by simp)
    · exact Or.inr (Option.some.inj (hna.symm.trans hhub))
    · exact Or.inl (List.mem_append_left _ (List.mem_filterMap.mpr ⟨m, hm, hma.symm.trans hna⟩))
  · obtain ⟨c, hcm, rfl⟩ := List.mem_map.mp ha
    obtain ⟨d, hd, hcd⟩ := hc c hcm
    exact Or.inl (List.mem_append_right _ (List.mem_map.mpr ⟨d, hd, hcd.symm⟩))

/-- A write that gives the address `a` to one row. -/
def Takes (a : Addr) : Write → Prop
  | .insertNode r => r.address = some a
  | .updateNode _ f => ∀ n, (f n).address = some a ∧ (f n).isHub = n.isHub
  | .insertClient r => r.address = a
  | _ => False

/-- Giving away a free host address keeps the invariant. -/
theorem takes_inv {w : Write} {a : Addr} (hhost : HostAddr hub a) (hfree : a ∉ db.heldAddrs)
    (hw : Takes a w) (h : apply w db = .ok db') (hinv : AddrInv hub db) : AddrInv hub db' := by
  rw [apply_eq_ok] at h
  have freeN : ∀ n ∈ db.nodes, n.address ≠ some a := fun n hn he =>
    hfree (List.mem_append_left _ (List.mem_filterMap.mpr ⟨n, hn, he⟩))
  have freeC : ∀ c ∈ db.clients, c.address ≠ a := fun c hc he =>
    hfree (List.mem_append_right _ (List.mem_map.mpr ⟨c, hc, he⟩))
  have hhub : db'.hub = hub := by
    rw [← h]
    cases w <;> exact hinv.hub_eq
  -- the nodes and the clients of the new tables, one kind of write at a time
  have hrows : (∀ n ∈ db'.nodes, (n ∈ db.nodes ∨ n.address = some a)) ∧
      (∀ c ∈ db'.clients, (c ∈ db.clients ∨ c.address = a)) ∧
      ((∀ n ∈ db'.nodes, n ∈ db.nodes) ∨ ∀ c ∈ db'.clients, c ∈ db.clients) := by
    rw [← h]
    cases w with
    | insertNode r =>
      refine ⟨fun n hn => ?_, fun c hc => Or.inl hc, Or.inr fun c hc => hc⟩
      rcases List.mem_append.mp hn with hn | hn
      · exact Or.inl hn
      · exact Or.inr (List.mem_singleton.mp hn ▸ hw)
    | updateNode id f =>
      refine ⟨fun n hn => ?_, fun c hc => Or.inl hc, Or.inr fun c hc => hc⟩
      obtain ⟨m, hm, rfl⟩ := List.mem_map.mp hn
      split
      · exact Or.inr (hw m).1
      · exact Or.inl hm
    | insertClient r =>
      refine ⟨fun n hn => Or.inl hn, fun c hc => ?_, Or.inl fun n hn => hn⟩
      rcases List.mem_append.mp hc with hc | hc
      · exact Or.inl hc
      · exact Or.inr (List.mem_singleton.mp hc ▸ hw)
    | deleteNode | insertSubnet | deleteSubnet | insertDomain | deleteDomain | updateClient | deleteClient
    | insertGrant | setExit | deleteGrant | insertRule | deleteRule | insertLink | deleteLink =>
      exact absurd hw id
  obtain ⟨hn, hc, hone⟩ := hrows
  refine ⟨hhub, fun n hnm c hcm => ?_, fun c hcm => ?_, fun n hnm b hb => ?_⟩
  · rcases hn n hnm with hold | hnew
    · rcases hc c hcm with hcold | hcnew
      · exact hinv.disjoint n hold c hcold
      · exact hcnew ▸ freeN n hold
    · rcases hone with hall | hall
      · exact absurd hnew (freeN n (hall n hnm))
      · rw [hnew]
        exact fun he => freeC c (hall c hcm) (Option.some.inj he).symm
  · rcases hc c hcm with hold | hnew
    · exact hinv.client_host c hold
    · exact hnew ▸ hhost
  · rcases hn n hnm with hold | hnew
    · exact hinv.node_host n hold b hb
    · obtain rfl := Option.some.inj (hnew.symm.trans hb)
      exact Or.inl hhost

/-- An empty panel meets it: the hub alone has an address. -/
theorem addrInv_boot (hub : Hub) (secret : String) : AddrInv hub (Db.boot hub secret) :=
  ⟨rfl, fun _ h => absurd h List.not_mem_nil, fun _ h => absurd h List.not_mem_nil,
    fun _ h => absurd h List.not_mem_nil⟩

/-! ## The protocol -/

/-- While a session holds the allocation lock, the others only free addresses or register the hub's. -/
def addrProtocol (hub : Hub) : Protocol Op Db Lock where
  good := AddrInv hub
  rely _ _ held c c' := Lock.alloc ∈ held → ∀ a ∈ c'.heldAddrs, a ∈ c.heldAddrs ∨ a = hub.address
  compat _ _ _ _ := True
  rely_refl _ _ _ _ := fun _ _ ha => Or.inl ha
  rely_trans _ _ _ _ _ _ h₁ h₂ := fun hl a ha => (h₂ hl a ha).elim (h₁ hl a) Or.inr

variable {op : Op} {n : Nat} {held : List Lock} {c : Db}

/-- A free address stays free for the holder of the lock. -/
theorem free_stable {a : Addr} {c' : Db} (hl : Lock.alloc ∈ held) (hhost : HostAddr hub a)
    (hfree : a ∉ c.heldAddrs) (hr : (addrProtocol hub).rely op n held c c') : a ∉ c'.heldAddrs :=
  fun ha => (hr hl a ha).elim hfree hhost.ne_hub

/-- Under the lock `allocateIP` finds an address of the pool that nobody has then. -/
theorem wp_allocateIP {Q : Addr → Nat → List Lock → List Write → Db → Prop}
    (hQ : ∀ a n' held' c', Lock.alloc ∈ held' → HostAddr hub a → a ∉ c'.heldAddrs → Q a n' held' [] c') :
    (addrProtocol hub).Wp apply op allocateIP Q n held [] c := by
  refine Protocol.wp_bind.mpr (Protocol.wp_acquire fun c₁ _ _ => ?_)
  refine Protocol.wp_bind.mpr (Protocol.wp_read fun c₂ v₂ _ hg₂ hv₂ => ?_)
  refine Protocol.wp_bind.mpr (Protocol.wp_read fun c₃ v₃ _ _ hv₃ => ?_)
  obtain rfl := Except.ok.inj hv₂
  obtain rfl := Except.ok.inj hv₃
  refine Protocol.wp_bind.mpr (Protocol.wp_orFail fun broadcast hb => Protocol.wp_orFail fun a ha => ?_)
  rw [show c₂.hub = hub from hg₂.hub_eq] at hb ha
  obtain ⟨hhost, hfree⟩ := allocLoop_host hb ha
  exact hQ a _ _ c₃ List.mem_cons_self hhost hfree

/-- A look-up changes nothing that the addresses depend on. -/
theorem wp_lockNode {p : NodeRow → Bool} {pick : Nat} {Q : Option NodeRow → Nat → List Lock → List Write → Db → Prop}
    (hQ : ∀ r n' held' c', Q r n' held' [] c') :
    (addrProtocol hub).Wp apply op (lockNode p pick) Q n held [] c := by
  refine Protocol.wp_bind.mpr (Protocol.wp_read fun c₁ v₁ _ hg₁ _ => ?_)
  refine Protocol.wp_bind.mpr (Protocol.wp_acquireAll hg₁ fun held' c₂ _ => ?_)
  exact Protocol.wp_read fun c₃ v₃ _ _ _ => hQ _ _ _ c₃

/-- The commit of a session that gives away the address it found free. -/
theorem commit_takes {w : Write} {ws : List Write} {a : Addr} (hl : Lock.alloc ∈ held)
    (hhost : HostAddr hub a) (hfree : a ∉ c.heldAddrs) (hw : Takes a w) (hws : ∀ x ∈ ws, Neutral hub x) :
    (addrProtocol hub).CommitOk apply op () n held (w :: ws) c := by
  intro c₁ c₂ hr hg h
  obtain ⟨t, ht, hrest⟩ := applyAll_cons_ok.mp h
  have hinv : AddrInv hub t := takes_inv hhost (free_stable hl hhost hfree hr) hw ht hg
  refine ⟨applyAll_induction (fun x hx s s' hs => neutral_inv (hws x hx) hs) hrest hinv, ?_⟩
  exact fun _ _ _ hdisj _ hl' => absurd hl' (hdisj hl)

/-- A body that only makes neutral writes. -/
theorem wp_neutral {t : Tx Unit} (ht : AllWrites (Neutral hub) t) :
    (addrProtocol hub).Wp apply op t ((addrProtocol hub).CommitOk apply op) n held [] c :=
  Protocol.wp_of_allWrites
    (fun _ _ _ hw h hg => ⟨neutral_inv hw h hg, fun _ _ _ _ _ ha => neutral_held hw h ha⟩)
    (fun _ h => absurd h List.not_mem_nil) ht

/-! ### The bodies -/

/-- The calls that allocate no address make neutral writes. The hub node's call is left out: what it
    writes depends on the hub row it reads. -/
theorem writes_neutral {w : Write} (h : op.Writes w)
    (hop : match op with
      | .createNode .. | .createClient .. | .approveNode .. | .ensureHubNode .. => False
      | _ => True) : Neutral hub w := by
  cases h
  case createNode | createNode_subnet | createClient | approveNode | ensureHubNode
    | ensureHubNode_subnet => exact absurd hop id
  case enrollNode => exact Or.inl rfl
  case enrollNode_known | rejectNode | renameNode | setNodeDNS | setNodeColor => exact fun n => ⟨rfl, rfl⟩
  case updateClient | renameClient | setClientColor => exact fun c => rfl
  all_goals trivial

/-- The hub's own node gets no address from the pool. -/
theorem wp_ensureHubNode {id : Uuid} :
    (addrProtocol hub).Wp apply op (ensureHubNode id) ((addrProtocol hub).CommitOk apply op) n held [] c := by
  refine Protocol.wp_bind.mpr (Protocol.wp_read fun c₁ _ _ _ _ => ?_)
  split
  · exact wp_neutral trivial
  · refine Protocol.wp_bind.mpr (Protocol.wp_read fun c₂ v₂ _ hg₂ hv₂ => ?_)
    obtain rfl := Except.ok.inj hv₂
    rw [show c₂.hub = hub from hg₂.hub_eq]
    exact wp_neutral (allWrites_bind (allWrites_write (Or.inr ⟨rfl, rfl⟩)) fun _ =>
      allWrites_insertSubnets fun _ _ => trivial)

/-- What is left of an allocating session after its address: the row, then `ws`. -/
theorem wp_takes (w : Write) (ws : List Write) {a : Addr} (hl : Lock.alloc ∈ held) (hhost : HostAddr hub a)
    (hfree : a ∉ c.heldAddrs) (hw : Takes a w) (hws : ∀ x ∈ ws, Neutral hub x) :
    (addrProtocol hub).Wp apply op (Txn.write w >>= fun _ => Txn.writes ws >>= fun _ => Txn.ret ())
      ((addrProtocol hub).CommitOk apply op) n held [] c := by
  refine Protocol.wp_bind.mpr (Protocol.wp_write fun c' hr _ => Protocol.wp_bind.mpr ?_)
  refine Protocol.wp_writes (I := fun _ s => a ∉ s.heldAddrs)
    (fun _ _ _ hf hr _ => free_stable hl hhost hf hr) (free_stable hl hhost hfree hr) fun n' c' hf => ?_
  exact commit_takes hl hhost hf hw hws

/-- **Every call's body is correct while the others commit.** -/
theorem body_wp (op : Op) (c : Db) :
    (addrProtocol hub).Wp apply op op.body ((addrProtocol hub).CommitOk apply op) 0 [] [] c := by
  have hneutral : (∀ w, op.Writes w → Neutral hub w) →
      (addrProtocol hub).Wp apply op op.body ((addrProtocol hub).CommitOk apply op) 0 [] [] c := fun h =>
    wp_neutral ((body_allWrites op).mono h)
  cases op with
  | createNode id name lanIface subnets keys psk =>
    simp only [Op.body, createNode, Txn.bind_assoc]
    refine Protocol.wp_bind.mpr (wp_allocateIP fun a n' held' c' hl hhost hfree => ?_)
    refine Protocol.wp_bind.mpr (Protocol.wp_orFail fun _ _ => ?_)
    refine wp_takes (.insertNode (createdNode id name lanIface keys psk a)) _ hl hhost hfree rfl
      fun x hx => ?_
    obtain ⟨s, -, rfl⟩ := List.mem_map.mp hx
    trivial
  | createClient id name dns keys psk =>
    simp only [Op.body, createClient, Txn.bind_assoc]
    refine Protocol.wp_bind.mpr (wp_allocateIP fun a n' held' c' hl hhost hfree => ?_)
    refine Protocol.wp_bind.mpr (Protocol.wp_orFail fun _ _ => ?_)
    exact wp_takes (.insertClient (createdClient id name dns keys psk a)) [] hl hhost hfree rfl
      fun x hx => absurd hx List.not_mem_nil
  | approveNode id =>
    refine Protocol.wp_bind.mpr (wp_lockNode fun row n' held' c' => ?_)
    refine Protocol.wp_bind.mpr (Protocol.wp_orFail fun r _ => ?_)
    split
    · exact wp_neutral trivial
    · refine Protocol.wp_bind.mpr (wp_allocateIP fun a n' held' c' hl hhost hfree => ?_)
      exact wp_takes (.updateNode id (activate a)) [] hl hhost hfree (fun _ => ⟨rfl, rfl⟩)
        fun x hx => absurd hx List.not_mem_nil
  | ensureHubNode id => exact wp_ensureHubNode
  | enrollNode | rejectNode | deleteNode | renameNode | setNodeDNS | setNodeColor | setNodeDomains
  | deleteClient | updateClient | renameClient | setClientColor | setGrant | deleteGrant | setGrantRules
  | setGrantExit | setNodeLink | deleteNodeLink => exact hneutral fun w h => writes_neutral h trivial

/-- So the invariant holds in every state of every interleaving. -/
theorem addrInv_of_steps {hub : Hub} {secret : String} {s : Sys Op Db Write Lock StoreErr}
    (h : Steps apply Op.body (Sys.idle (Db.boot hub secret)) s) : AddrInv hub s.committed :=
  Protocol.good_of_all_steps (π := addrProtocol hub) (fun _ _ _ _ => trivial) (fun op c _ => body_wp op c)
    (addrInv_boot hub secret) h

/-! ## Four bytes -/

/-- The write gives a node no address but one of four bytes, the hub node apart. -/
def FourBytes : Write → Prop
  | .insertNode r => r.isHub = true ∨ ∀ a, r.address = some a → a.as4.isSome = true
  | .updateNode _ f => ∀ n, (f n).isHub = n.isHub ∧
      ((f n).address = n.address ∨ ∀ a, (f n).address = some a → a.as4.isSome = true)
  | _ => True

/-- What `allocateIP` hands out has four bytes, whatever hub and addresses it reads. -/
theorem allWrites_allocateIP_bind {P : Write → Prop} {f : Addr → Tx Unit}
    (hf : ∀ a, a.as4.isSome = true → AllWrites P (f a)) : AllWrites P (allocateIP >>= f) := by
  simp only [allocateIP, Txn.bind_assoc]
  refine ⟨fun _ w hw => absurd hw List.not_mem_nil, fun hubs =>
    ⟨fun _ w hw => absurd hw List.not_mem_nil, fun held => ?_⟩⟩
  refine allWrites_orFail_bind fun broadcast hlast => allWrites_orFail_bind fun a ha => hf a ?_
  obtain ⟨x, hx, -⟩ := Option.map_eq_some_iff.mp hlast
  exact as4_of_contains (by rw [hx]; rfl) (allocLoop_spec ha).1

/-- The calls that allocate no address for a node write none of more than four bytes. -/
theorem writes_fourBytes {op : Op} {w : Write} (h : op.Writes w)
    (hop : (∀ id name lanIface subnets keys psk, op ≠ .createNode id name lanIface subnets keys psk) ∧
      ∀ id, op ≠ .approveNode id) : FourBytes w := by
  cases h
  case createNode => exact absurd rfl (hop.1 _ _ _ _ _ _)
  case approveNode => exact absurd rfl (hop.2 _)
  case enrollNode => exact .inr fun a ha => absurd ha (by simp [enrolledNode])
  case ensureHubNode => exact .inl rfl
  case enrollNode_known | rejectNode | renameNode | setNodeDNS | setNodeColor => exact fun n => ⟨rfl, .inl rfl⟩
  all_goals trivial

/-- No call writes a node's address of more than four bytes. -/
theorem body_fourBytes (op : Op) : AllWrites FourBytes op.body := by
  cases op with
  | createNode id name lanIface subnets keys psk =>
    simp only [Op.body, createNode, Txn.bind_assoc]
    refine allWrites_allocateIP_bind fun a ha => allWrites_bind allWrites_checkText fun _ =>
      allWrites_bind (allWrites_write (.inr fun b hb => ?_)) fun _ => ?_
    · obtain rfl := Option.some.inj hb
      exact ha
    · exact allWrites_bind (allWrites_insertSubnets fun _ _ => trivial) fun _ => trivial
  | approveNode id =>
    refine allWrites_bind allWrites_lockNode fun row => allWrites_orFail_bind fun n _ => ?_
    split
    · trivial
    · refine allWrites_allocateIP_bind fun a ha => allWrites_write fun m => ⟨rfl, .inr fun b hb => ?_⟩
      obtain rfl := Option.some.inj hb
      exact ha
  | _ => exact (body_allWrites _).mono fun w h => writes_fourBytes h (by simp)

/-- So every node's address has four bytes. -/
theorem as4_of_steps {P : Sys Op Db Write Lock StoreErr → Prop} {c : Db} {s : Sys Op Db Write Lock StoreErr}
    (hc : ∀ n ∈ c.nodes, n.isHub = false → ∀ a, n.address = some a → a.as4.isSome = true)
    (h : StepsIn apply Op.body P (Sys.idle c) s) :
    ∀ n ∈ s.committed.nodes, n.isHub = false → ∀ a, n.address = some a → a.as4.isSome = true := by
  refine Protocol.good_of_commits (W := fun _ => FourBytes) (I := fun d : Db =>
    ∀ n ∈ d.nodes, n.isHub = false → ∀ a, n.address = some a → a.as4.isSome = true) body_fourBytes ?_ hc h
  intro s i t c' _ hgood _ _ hws happly
  refine applyAll_induction (P := fun d : Db =>
    ∀ n ∈ d.nodes, n.isHub = false → ∀ a, n.address = some a → a.as4.isSome = true)
    (fun w hw d d' hd ih n hn hhub a ha => ?_) happly hgood
  rw [apply_eq_ok] at hd
  rw [← hd] at hn
  cases w with
  | insertNode r =>
    rcases List.mem_append.mp hn with hold | hnew
    · exact ih n hold hhub a ha
    · obtain rfl := List.mem_singleton.mp hnew
      rcases hws _ hw with hisHub | hfour
      · exact absurd (hhub.symm.trans hisHub) (by simp)
      · exact hfour a ha
  | updateNode id f =>
    obtain ⟨m, hm, rfl⟩ := List.mem_map.mp hn
    by_cases hid : m.id = id
    · rw [if_pos hid] at hhub ha
      obtain ⟨hsame, haddr⟩ := hws _ hw m
      rcases haddr with haddr | hfour
      · exact ih m hm (hsame ▸ hhub) a (haddr ▸ ha)
      · exact hfour a ha
    · rw [if_neg hid] at hhub ha
      exact ih m hm hhub a ha
  | deleteNode id => exact ih n (List.mem_filter.mp hn).1 hhub a ha
  | insertSubnet | deleteSubnet | insertDomain | deleteDomain | insertClient | updateClient | deleteClient
  | insertGrant | setExit | deleteGrant | insertRule | deleteRule | insertLink | deleteLink => exact ih n hn hhub a ha

/-- **Tunnel addresses never collide.** In every committed state of every interleaving of the store's
    transactions, started on a database with nothing but a hub row whose pool is IPv4, no tunnel address
    is held twice; and every one but the hub node's lies in the pool, below its last address, and is
    neither its network address nor the hub's own. -/
theorem addresses_distinct {hub : Hub} {secret : String} {s : Sys Op Db Write Lock StoreErr}
    (hpool : hub.poolCIDR.is4 = true)
    (h : Steps apply Op.body (Sys.idle (Db.boot hub secret)) s) :
    s.committed.heldAddrs.Nodup ∧
      ∀ a, (a ∈ s.committed.clients.map ClientRow.address ∨
          ∃ n ∈ s.committed.nodes, n.isHub = false ∧ n.address = some a) →
        hub.poolCIDR.contains a = true ∧ a ≠ hub.poolCIDR.masked.addr ∧ a ≠ hub.address ∧
          ∃ b, hub.poolCIDR.contains b = true ∧ a.toNat < b.toNat := by
  have hinv := addrInv_of_steps h
  refine ⟨hinv.nodup, fun a ha => ?_⟩
  have hhost : HostAddr hub a := by
    rcases ha with ha | ⟨n, hn, hhub, hna⟩
    · obtain ⟨c, hc, rfl⟩ := List.mem_map.mp ha
      exact hinv.client_host c hc
    · rcases hinv.node_host n hn a hna with hhost | ⟨hisHub, -⟩
      · exact hhost
      · exact absurd (hhub.symm.trans hisHub) (by simp)
  obtain ⟨l, hl, hlc, hmax⟩ := lastAddr_greatest hpool
  obtain ⟨hle, heq⟩ := hmax a hhost.inPool
  refine ⟨hhost.inPool, hhost.ne_network, hhost.ne_hub, l, hlc, ?_⟩
  by_contra hlt
  exact hhost.ne_last (by rw [heq (Nat.not_lt.mp hlt), hl])

/-- A node and a client are created at the same time; the client's session waits for the node's. -/
def allocRun : List (Event Op) :=
  let node := .createNode 1 "home" "eth0" [⟨.ofBytes 192 168 1 0, 24⟩] ⟨"priv1", "pub1"⟩ "psk"
  let client := .createClient 2 "phone" "" ⟨"priv2", "pub2"⟩ ""
  [.start 0 node, .start 1 client] ++ List.replicate 6 (.next 0) ++ List.replicate 5 (.next 1)

/-- Two allocations overlap, and get two addresses. -/
theorem addresses_distinct_allocRun :
    ∃ s, fireAll apply Op.body (Sys.idle (Db.boot demoHub "")) allocRun = some s ∧
      s.committed.heldAddrs = [.ofBytes 10 8 0 2, .ofBytes 10 8 0 3] ∧ s.committed.heldAddrs.Nodup := by
  have hrun : (fireAll apply Op.body (Sys.idle (Db.boot demoHub "")) allocRun).map
      (fun s => s.committed.heldAddrs) = some [.ofBytes 10 8 0 2, .ofBytes 10 8 0 3] := by decide +kernel
  obtain ⟨s, hs, hheld⟩ := Option.map_eq_some_iff.mp hrun
  exact ⟨s, hs, hheld, (addresses_distinct (by decide) (steps_of_fireAll hs)).1⟩

end Store
end BeautyAwg
