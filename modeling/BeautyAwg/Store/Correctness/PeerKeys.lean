import BeautyAwg.Store.Commits
import BeautyAwg.Store.Correctness.Cryptokey

/-!
# `Store.Correctness.PeerKeys`: a public key belongs to one peer

`enrollNode` looks for a row with the announced key and inserts one when it finds none. Nothing in the schema
makes the key unique, and the clients are not looked at: two first announcements can both find nothing, and a
client's key can be announced. Where neither happens every peer of the hub has its own key (`peer_keys`).

## Contents
- **The invariant.** `PeerKeys`; what it says of the rows and of the hub's peers.
- **The condition.** `KeysDrawn`, `NoKeyRace`, `NoClientKey`.
- **The protocol.** `keyProtocol`, `wp_enrollNode`, `commits_keys`.
- **Runs.** `peer_keys`, and `enrollNode_repeats_key`.
-/

namespace BeautyAwg
namespace Store

open Netip Awg Txn QuickConf

/-! ## The invariant -/

/-- Public keys are apart: those of the nodes but the hub's, those of the clients, and both. -/
structure PeerKeys (t : Tables) : Prop where
  hub : ∀ n ∈ t.nodes, n.isHub = true → n.keys.pub = ""
  nodes : ∀ n ∈ t.nodes, ∀ m ∈ t.nodes, n.isHub = false → m.isHub = false → n.keys.pub = m.keys.pub → n.id = m.id
  clients : ∀ r ∈ t.clients, ∀ r' ∈ t.clients, r.keys.pub = r'.keys.pub → r.id = r'.id
  apart : ∀ n ∈ t.nodes, n.isHub = false → ∀ r ∈ t.clients, n.keys.pub ≠ r.keys.pub

variable {s : Sys Op Db Write Lock StoreErr} {c c' : Db} {op : Op} {n : Nat} {held : List Lock} {pend : List Write}
  {pubkey : String}

/-- At most one row has a given key. -/
theorem PeerKeys.length_le (h : PeerKeys c.toTables) (hpub : pubkey ≠ "") :
    (c.nodes.filter fun n => n.keys.pub = pubkey).length ≤ 1 := by
  refine length_le_one_of_nodup_map (c.wf.nodes_pkey.sublist (List.filter_sublist.map _)) fun n hn m hm => ?_
  simp only [List.mem_filter, decide_eq_true_eq] at hn hm
  have hplain : ∀ x ∈ c.nodes, x.keys.pub = pubkey → x.isHub = false := fun x hx hkey =>
    Bool.eq_false_iff.mpr fun hhub => hpub (hkey.symm.trans (h.hub x hx hhub))
  exact h.nodes n hn.1 m hm.1 (hplain n hn.1 hn.2) (hplain m hm.1 hm.2) (hn.2.trans hm.2.symm)

/-- No two peers that `RenderHub` prints have the same key. -/
theorem PeerKeys.peers (h : PeerKeys c.toTables) {out : Snapshot} (hout : SnapshotOf c.toTables out) :
    ((hubPeers out.nodes out.clients).map HubPeer.pub).Nodup := by
  obtain ⟨nodes, clients, rules, grants, links, hnodes, hclients, -, -, -, rfl⟩ := hout
  show ((hubPeers (nodes.map Prod.snd) (clients.map Prod.snd)).map HubPeer.pub).Nodup
  rw [ownedPeers_peers, List.map_map]
  -- the owner of a peer is the row its key comes from
  have hnode : ∀ id p, (.inl id, p) ∈ ownedPeers nodes clients →
      ∃ r ∈ c.nodes, r.isHub = false ∧ r.id = id ∧ p.pub = r.keys.pub := by
    intro id p hp
    rcases List.mem_append.mp hp with hp | hp
    · obtain ⟨⟨i, x⟩, hx, he⟩ := List.mem_map.mp hp
      obtain ⟨hid, rfl⟩ := Prod.mk.inj he
      obtain rfl := Sum.inl.inj hid
      obtain ⟨hx, hplain⟩ := List.mem_filter.mp hx
      obtain ⟨r, hr, hrid, -, hrow⟩ := hnodes.row hx
      refine ⟨r, (List.mem_filter.mp hr).1, ?_, hrid, ?_⟩
      · rw [hrow] at hplain
        simpa [NodeRow.toNode] using hplain
      · show x.keys.pub = r.keys.pub
        rw [hrow]
        rfl
    · obtain ⟨x, -, he⟩ := List.mem_map.mp hp
      exact absurd (Prod.mk.inj he).1 (by simp)
  have hclient : ∀ id p, (.inr id, p) ∈ ownedPeers nodes clients →
      ∃ r ∈ c.clients, r.id = id ∧ p.pub = r.keys.pub := by
    intro id p hp
    rcases List.mem_append.mp hp with hp | hp
    · obtain ⟨x, -, he⟩ := List.mem_map.mp hp
      exact absurd (Prod.mk.inj he).1 (by simp)
    · obtain ⟨⟨i, x⟩, hx, he⟩ := List.mem_map.mp hp
      obtain ⟨hid, rfl⟩ := Prod.mk.inj he
      obtain rfl := Sum.inr.inj hid
      obtain ⟨r, hr, -, hrid, rfl⟩ := hclients.row hx
      exact ⟨r, hr, hrid, rfl⟩
  refine List.pairwise_map.mpr ((List.pairwise_map.mp (ownedPeers_nodup c.wf hnodes hclients)).imp_of_mem ?_)
  rintro ⟨o, p⟩ ⟨o', p'⟩ hp hp' hne hkey
  have hkey : p.pub = p'.pub := hkey
  cases o with
  | inl i =>
    obtain ⟨r, hr, hplain, rfl, hpub⟩ := hnode i p hp
    cases o' with
    | inl j =>
      obtain ⟨r', hr', hplain', rfl, hpub'⟩ := hnode j p' hp'
      exact hne (congrArg Sum.inl (h.nodes r hr r' hr' hplain hplain' (hpub.symm.trans (hkey.trans hpub'))))
    | inr j =>
      obtain ⟨r', hr', rfl, hpub'⟩ := hclient j p' hp'
      exact h.apart r hr hplain r' hr' (hpub.symm.trans (hkey.trans hpub'))
  | inr i =>
    obtain ⟨r, hr, rfl, hpub⟩ := hclient i p hp
    cases o' with
    | inl j =>
      obtain ⟨r', hr', hplain', rfl, hpub'⟩ := hnode j p' hp'
      exact h.apart r' hr' hplain' r hr (hpub'.symm.trans (hkey.symm.trans hpub))
    | inr j =>
      obtain ⟨r', hr', rfl, hpub'⟩ := hclient j p' hp'
      exact hne (congrArg Sum.inr (h.clients r hr r' hr' (hpub.symm.trans (hkey.trans hpub'))))

/-! ## The condition -/

/-- The public key a call announces. -/
def Op.announced : Op → Option String
  | .enrollNode _ _ _ _ _ pubkey _ _ => some pubkey
  | _ => none

/-- The public key a call has generated. -/
def Op.generated : Op → Option String
  | .createNode _ _ _ _ keys _ => some keys.pub
  | .createClient _ _ _ keys _ => some keys.pub
  | _ => none

/-- Some node but the hub's has the key. -/
def Registered (pubkey : String) (db : Db) : Prop := ∃ n ∈ db.nodes, n.isHub = false ∧ n.keys.pub = pubkey

/-- A generated key is in no row yet, and no other session generates or announces it. -/
def KeysDrawn (s : Sys Op Db Write Lock StoreErr) : Prop :=
  ∀ i t, s.sessions i = some t → ∀ key ∈ t.op.generated,
    ¬ Registered key s.committed ∧ (∀ r ∈ s.committed.clients, r.keys.pub ≠ key) ∧
      ∀ j t', j ≠ i → s.sessions j = some t' → t'.op.generated ≠ some key ∧ t'.op.announced ≠ some key

/-- Two announcements of one key are past their lookups together only when a node has it. -/
def NoKeyRace (s : Sys Op Db Write Lock StoreErr) : Prop :=
  ∀ i j t t', i ≠ j → s.sessions i = some t → s.sessions j = some t' → 1 ≤ t.done → 1 ≤ t'.done →
    ∀ key, t.op.announced = some key → t'.op.announced = some key → Registered key s.committed

/-- A key that is announced and that no node has is not a client's. -/
def NoClientKey (s : Sys Op Db Write Lock StoreErr) : Prop :=
  ∀ i t, s.sessions i = some t → 1 ≤ t.done → ∀ key, t.op.announced = some key → ¬ Registered key s.committed →
    ∀ r ∈ s.committed.clients, r.keys.pub ≠ key

/-! ## The protocol -/

/-- Nodes with the key had it before, under the same id. -/
def NoNewNode (key : String) (c c' : Db) : Prop :=
  ∀ n' ∈ c'.nodes, n'.isHub = false → n'.keys.pub = key →
    ∃ n ∈ c.nodes, n.isHub = false ∧ n.keys.pub = key ∧ n.id = n'.id

/-- Past its lookup, an announcement relies on no node getting its key. -/
def keyProtocol : Protocol Op Db Lock where
  good db := PeerKeys db.toTables
  rely op n _ c c' := 1 ≤ n → ∀ key, op.announced = some key → NoNewNode key c c'
  compat _ _ _ _ := True
  rely_refl _ _ _ _ := fun _ _ _ n hn hplain hkey => ⟨n, hn, hplain, hkey, rfl⟩
  rely_trans _ _ _ _ _ _ h₁ h₂ := fun hn key he n' hn' hplain hkey => by
    obtain ⟨m, hm, hplain', hkey', hid⟩ := h₂ hn key he n' hn' hplain hkey
    obtain ⟨m', hm', hplain'', hkey'', hid'⟩ := h₁ hn key he m hm hplain' hkey'
    exact ⟨m', hm', hplain'', hkey'', hid'.trans hid⟩

/-- At its commit a session has made writes of its call, and an announcement that inserts a node is past its
    lookup and of a key that no node has. -/
def KeyReady (op : Op) (n : Nat) (_ : List Lock) (pend : List Write) (c : Db) : Prop :=
  (∀ w ∈ pend, op.Writes w) ∧ ∀ key, op.announced = some key → (∃ m, Write.insertNode m ∈ pend) →
    1 ≤ n ∧ ¬ Registered key c

theorem notRegistered_stable {key : String} (h : ¬ Registered key c) (hnew : NoNewNode key c c') :
    ¬ Registered key c' := by
  rintro ⟨n, hn, hplain, hkey⟩
  obtain ⟨m, hm, hplain', hkey', -⟩ := hnew n hn hplain hkey
  exact h ⟨m, hm, hplain', hkey'⟩

section Announcement

variable {id : Uuid} {newToken name hostname lanIface : String} {subnets : List Prefix} {pick : Nat}

theorem wp_enrollNode :
    keyProtocol.Wp apply (.enrollNode id newToken name hostname lanIface pubkey subnets pick)
      (Op.enrollNode id newToken name hostname lanIface pubkey subnets pick).body
      (keyProtocol.AtCommit KeyReady (.enrollNode id newToken name hostname lanIface pubkey subnets pick))
      0 [] [] c := by
  simp only [Op.body, enrollNode, lockNode, Txn.bind_assoc]
  refine Protocol.wp_bind.mpr (Protocol.wp_orFail fun _ _ => ?_)
  refine Protocol.wp_bind.mpr (Protocol.wp_read fun c₁ v _ _ hv => ?_)
  obtain rfl := Except.ok.inj hv
  let found := (c₁.nodes.filter fun n => n.keys.pub = pubkey).map NodeRow.id
  -- the nodes with the key are among the ones found, from here on
  let Among : Db → Prop := fun c => ∀ n ∈ c.nodes, n.isHub = false → n.keys.pub = pubkey → n.id ∈ found
  have hstable : ∀ held c c', Among c →
      keyProtocol.rely (.enrollNode id newToken name hostname lanIface pubkey subnets pick) 1 held c c' →
      keyProtocol.good c' → Among c' := by
    intro held c c' hamong hr _ n' hn' hplain hkey
    obtain ⟨m, hm, hplain', hkey', hid⟩ := hr (Nat.le_refl 1) pubkey rfl n' hn' hplain hkey
    exact hid ▸ hamong m hm hplain' hkey'
  have hamong : Among c₁ := fun n hn _ hkey =>
    List.mem_map_of_mem (List.mem_filter.mpr ⟨hn, decide_eq_true hkey⟩)
  refine Protocol.wp_bind.mpr (Protocol.wp_acquireAll_carry hstable hamong fun held c₂ hamong => ?_)
  refine Protocol.wp_bind.mpr (Protocol.wp_read fun c₃ v hr hg hv => ?_)
  obtain rfl := Except.ok.inj hv
  have hamong := hstable _ _ _ hamong hr hg
  cases hfind : anyRow pick (c₃.nodes.filter fun n => n.id ∈ found ∧ decide (n.keys.pub = pubkey) = true) with
  | some r =>
    refine Protocol.wp_mono ?_ (Protocol.wp_writes_of_allWrites (P := fun w =>
      (Op.enrollNode id newToken name hostname lanIface pubkey subnets pick).Writes w ∧ ∀ m, w ≠ .insertNode m)
      (fun _ hw => absurd hw List.not_mem_nil) (allWrites_bind ?_ fun _ => trivial))
    · rintro _ _ _ _ _ h c' hr hg
      refine ⟨fun w hw => (h c' hr hg w hw).1, ?_⟩
      rintro key - ⟨m, hm⟩
      exact absurd rfl ((h c' hr hg _ hm).2 m)
    · exact allWrites_reenrollNode ⟨.enrollNode_known _ _, fun _ => by simp⟩
        (fun x => ⟨.enrollNode_drop x, fun _ => by simp⟩) fun x hx => ⟨.enrollNode_subnet _ hx, fun _ => by simp⟩
  | none =>
    have hfree : ¬ Registered pubkey c₃ := by
      rintro ⟨n, hn, hplain, hkey⟩
      have hmem : n.id ∈ found := hamong n hn hplain hkey
      have hno := anyRow_filter_none hfind hn
      simp [hmem, hkey] at hno
    refine Protocol.wp_mono ?_ (Protocol.wp_carry (I := fun c => ¬ Registered pubkey c) (m := 1)
      (P := (Op.enrollNode id newToken name hostname lanIface pubkey subnets pick).Writes) ?_ (by omega) hfree
      (fun _ hw => absurd hw List.not_mem_nil) (allWrites_bind ?_ fun _ => trivial))
    · rintro _ _ _ _ _ h c' hr hg
      obtain ⟨hn, hws, hfree⟩ := h c' hr hg
      refine ⟨hws, fun key hkey _ => ⟨hn, ?_⟩⟩
      obtain rfl := Option.some.inj hkey
      exact hfree
    · exact fun n held c c' hn hfree hr _ => notRegistered_stable hfree (hr hn pubkey rfl)
    · exact allWrites_registerNode .enrollNode fun x hx => .enrollNode_subnet _ hx

end Announcement

theorem body_wp_keys (op : Op) (c : Db) :
    keyProtocol.Wp apply op op.body (keyProtocol.AtCommit KeyReady op) 0 [] [] c := by
  cases hop : op.announced with
  | some key =>
    cases op with
    | enrollNode id newToken name hostname lanIface pubkey subnets pick => exact wp_enrollNode
    | _ => exact absurd hop (by simp [Op.announced])
  | none =>
    refine Protocol.wp_mono ?_ (Protocol.wp_writes_of_allWrites (fun _ h => absurd h List.not_mem_nil)
      (body_allWrites op))
    exact fun _ _ _ _ _ h c' hr hg => ⟨h c' hr hg, fun key he => absurd (hop.symm.trans he) (by simp)⟩

/-! ### Commits -/

/-- A node that a session inserts is the hub's, or its key is the one generated or announced. -/
theorem insertNode_key {m : NodeRow} (h : op.Writes (.insertNode m)) :
    (m.isHub = true ∧ m.keys.pub = "") ∨
      m.isHub = false ∧ (op.generated = some m.keys.pub ∨ op.announced = some m.keys.pub) := by
  cases h with
  | createNode => exact .inr ⟨rfl, .inl rfl⟩
  | enrollNode => exact .inr ⟨rfl, .inr rfl⟩
  | ensureHubNode => exact .inl ⟨rfl, rfl⟩

theorem insertClient_key {r : ClientRow} (h : op.Writes (.insertClient r)) : op.generated = some r.keys.pub := by
  cases h
  rfl

theorem insertNode_id {m m' : NodeRow} (h : op.Writes (.insertNode m)) (h' : op.Writes (.insertNode m')) :
    m.id = m'.id := by
  cases h <;> cases h' <;> rfl

theorem insertClient_id {r r' : ClientRow} (h : op.Writes (.insertClient r)) (h' : op.Writes (.insertClient r')) :
    r.id = r'.id := by
  cases h
  cases h'
  rfl

theorem not_both_inserts {m : NodeRow} {r : ClientRow} (h : op.Writes (.insertNode m))
    (h' : op.Writes (.insertClient r)) : False := by
  cases h <;> cases h'

/-- A commit keeps the keys apart if the keys it inserts are new. -/
theorem peerKeys_of_commit (hws : ∀ w ∈ pend, op.Writes w) (h : applyAll apply pend c = .ok c')
    (hnew : ∀ m, Write.insertNode m ∈ pend → m.isHub = false →
      ¬ Registered m.keys.pub c ∧ ∀ r ∈ c.clients, r.keys.pub ≠ m.keys.pub)
    (hnewClient : ∀ r, Write.insertClient r ∈ pend →
      ¬ Registered r.keys.pub c ∧ ∀ r' ∈ c.clients, r'.keys.pub ≠ r.keys.pub)
    (hgood : PeerKeys c.toTables) : PeerKeys c'.toTables := by
  constructor
  case hub =>
    intro n hn hhub
    rcases node_of_commit hws h hn with ⟨m, hm, -, hsame, hkeys⟩ | ⟨m, hm, -, hsame, hkeys⟩
    · rw [← hkeys]
      exact hgood.hub m hm (hsame.trans hhub)
    · rcases insertNode_key (hws _ hm) with ⟨-, hempty⟩ | ⟨hplain, -⟩
      · rw [← hkeys, hempty]
      · exact absurd ((hsame.symm.trans hplain).symm.trans hhub) (by simp)
  case nodes =>
    intro n hn n' hn' hplain hplain' hkey
    -- two old rows, an old and a new one, or the one new row twice
    rcases node_of_commit hws h hn with ⟨m, hm, hid, hhub, hkeys⟩ | ⟨m, hm, hid, hhub, hkeys⟩ <;>
      rcases node_of_commit hws h hn' with ⟨m', hm', hid', hhub', hkeys'⟩ | ⟨m', hm', hid', hhub', hkeys'⟩
    · rw [← hid, ← hid']
      exact hgood.nodes m hm m' hm' (hhub.trans hplain) (hhub'.trans hplain') (by rw [hkeys, hkeys', hkey])
    · exact absurd ⟨m, hm, hhub.trans hplain, by rw [hkeys, hkeys', hkey]⟩ (hnew m' hm' (hhub'.trans hplain')).1
    · exact absurd ⟨m', hm', hhub'.trans hplain', by rw [hkeys, hkeys', hkey]⟩ (hnew m hm (hhub.trans hplain)).1
    · rw [← hid, ← hid', insertNode_id (hws _ hm) (hws _ hm')]
  case clients =>
    intro r hr r' hr' hkey
    rcases client_of_commit hws h hr with ⟨x, hx, hid, hkeys, -⟩ | ⟨x, hx, hid, hkeys, -⟩ <;>
      rcases client_of_commit hws h hr' with ⟨x', hx', hid', hkeys', -⟩ | ⟨x', hx', hid', hkeys', -⟩
    · rw [← hid, ← hid']
      exact hgood.clients x hx x' hx' (by rw [hkeys, hkeys', hkey])
    · exact absurd (by rw [hkeys, hkeys', hkey]) ((hnewClient x' hx').2 x hx)
    · exact absurd (by rw [hkeys, hkeys', hkey]) ((hnewClient x hx).2 x' hx')
    · rw [← hid, ← hid', insertClient_id (hws _ hx) (hws _ hx')]
  case apart =>
    intro n hn hplain r hr hkey
    rcases node_of_commit hws h hn with ⟨m, hm, -, hhub, hkeys⟩ | ⟨m, hm, -, hhub, hkeys⟩ <;>
      rcases client_of_commit hws h hr with ⟨x, hx, -, hkeys', -⟩ | ⟨x, hx, -, hkeys', -⟩
    · exact hgood.apart m hm (hhub.trans hplain) x hx (by rw [hkeys, hkeys', hkey])
    · exact (hnewClient x hx).1 ⟨m, hm, hhub.trans hplain, by rw [hkeys, hkeys', hkey]⟩
    · exact (hnew m hm (hhub.trans hplain)).2 x hx (by rw [hkeys, hkeys', hkey])
    · exact not_both_inserts (hws _ hm) (hws _ hx)

/-- Under the condition every commit keeps the keys apart, and gives no node a key that is being announced. -/
theorem commits_keys (hdrawn : KeysDrawn s) (hrace : NoKeyRace s) (hclient : NoClientKey s)
    (hgood : PeerKeys s.committed.toTables) : keyProtocol.Commits apply KeyReady s := by
  intro i t held c ht _ ⟨hws, hready⟩ hc
  -- the key of an inserted node is new
  have hnew : ∀ m, Write.insertNode m ∈ t.pending → m.isHub = false → ¬ Registered m.keys.pub s.committed ∧
      ∀ r ∈ s.committed.clients, r.keys.pub ≠ m.keys.pub := by
    intro m hm hplain
    rcases insertNode_key (hws _ hm) with ⟨hhub, -⟩ | ⟨-, hgen | hann⟩
    · exact absurd (hhub.symm.trans hplain) (by simp)
    · exact ⟨(hdrawn i t ht _ hgen).1, (hdrawn i t ht _ hgen).2.1⟩
    · obtain ⟨hn, hfree⟩ := hready _ hann ⟨m, hm⟩
      exact ⟨hfree, hclient i t ht hn _ hann hfree⟩
  have hnewClient : ∀ r, Write.insertClient r ∈ t.pending → ¬ Registered r.keys.pub s.committed ∧
      ∀ r' ∈ s.committed.clients, r'.keys.pub ≠ r.keys.pub := fun r hr =>
    ⟨(hdrawn i t ht _ (insertClient_key (hws _ hr))).1, (hdrawn i t ht _ (insertClient_key (hws _ hr))).2.1⟩
  refine ⟨peerKeys_of_commit hws hc hnew hnewClient hgood, ?_⟩
  intro j t' held' hj ht' _ hn' key hann' n hn hplain hkey
  rcases node_of_commit hws hc hn with ⟨m, hm, hid, hhub, hkeys⟩ | ⟨m, hm, -, hhub, hkeys⟩
  · exact ⟨m, hm, hhub.trans hplain, by rw [hkeys, hkey], hid⟩
  · -- two sessions would insert one key
    have hmkey : m.keys.pub = key := by rw [hkeys, hkey]
    rcases insertNode_key (hws _ hm) with ⟨hhub', -⟩ | ⟨-, hgen | hann⟩
    · exact absurd (hhub'.symm.trans (hhub.trans hplain)) (by simp)
    · exact absurd (hmkey ▸ hann') ((hdrawn i t ht _ hgen).2.2 j t' hj ht').2
    · obtain ⟨hn, hfree⟩ := hready _ hann ⟨m, hm⟩
      exact absurd (hrace i j t t' (Ne.symm hj) ht ht' hn hn' _ hann (hmkey ▸ hann')) hfree

/-! ## Runs -/

/-- The conditions together. -/
def KeysApart (s : Sys Op Db Write Lock StoreErr) : Prop := KeysDrawn s ∧ NoKeyRace s ∧ NoClientKey s

/-- **A public key belongs to one peer.** In every committed state of every interleaving from the first start in
    which generated keys are new, no two first announcements of one key race and no client's key is announced, at
    most one node has a given key. If no text stored on the way leaves its line, the file printed from any snapshot
    reads back, and no two of its peers have the same key. -/
theorem peer_keys {hub : Hub} {secret : String}
    (h : StepsIn apply Op.body KeysApart (Sys.idle (Db.boot hub secret)) s) :
    (∀ key, key ≠ "" → (s.committed.nodes.filter fun n => n.keys.pub = key).length ≤ 1) ∧
      (Api.isBase64 hub.keys.priv = true →
        StepsIn apply Op.body (OpsIn OpTexts) (Sys.idle (Db.boot hub secret)) s →
        ∀ out, SnapshotOf s.committed.toTables out →
          ∃ peers, out.filePeers = some peers ∧ (peers.map HubPeer.pub).Nodup) := by
  have hgood : PeerKeys s.committed.toTables :=
    Protocol.good_of_steps_where (π := keyProtocol) (R := KeyReady) (fun op c _ => body_wp_keys op c)
      (fun _ hP hgood => commits_keys hP.1 hP.2.1 hP.2.2 hgood)
      (by constructor <;> exact fun _ hx => absurd hx List.not_mem_nil) h
  refine ⟨fun key hkey => hgood.length_le hkey, fun hpriv htexts out hout => ?_⟩
  exact ⟨_, file_peers (clean_of_base64 hpriv) htexts hout, hgood.peers hout⟩

/-- Two announcements of one key look it up before either inserts its node. -/
def announceTwice : List (Event Op) :=
  [.start 0 (.enrollNode 1 "token1" "home" "home" "eth0" "pub" [⟨.ofBytes 192 168 1 0, 24⟩] 0),
    .start 1 (.enrollNode 2 "token2" "home2" "home" "eth0" "pub" [⟨.ofBytes 192 168 1 0, 24⟩] 0),
    .next 0, .next 1, .next 0, .next 1] ++ .replicate 3 (.next 0) ++ .replicate 3 (.next 1)

/-- A client's key is announced, and the node approved. -/
def announceClient : List Op :=
  [.createClient 3 "phone" "" ⟨"priv3", "pub3"⟩ "",
    .enrollNode 1 "token" "home" "home" "eth0" "pub3" [⟨.ofBytes 192 168 1 0, 24⟩] 0, .approveNode 1]

/-- **The defect.** After the race two nodes have the key; after the other calls two peers of the printed file do. -/
theorem enrollNode_repeats_key :
    (∃ s, Steps apply Op.body (Sys.idle (Db.boot demoHub "")) s ∧
      ¬ (s.committed.nodes.filter fun n => n.keys.pub = "pub").length ≤ 1) ∧
    ∃ db, runAll apply Op.body (fun _ _ => true) (Db.boot demoHub "") announceClient = some db ∧
      ∃ out, SnapshotOf db.toTables out ∧ ∃ peers, out.filePeers = some peers ∧ ¬ (peers.map HubPeer.pub).Nodup := by
  constructor
  · have hrun : (fireAll apply Op.body (Sys.idle (Db.boot demoHub "")) announceTwice).map
        (fun s => (s.committed.nodes.filter fun n => n.keys.pub = "pub").length) = some 2 := by decide +kernel
    obtain ⟨s, hs, hlen⟩ := Option.map_eq_some_iff.mp hrun
    exact ⟨s, steps_of_fireAll hs, by omega⟩
  · have hrun : ((runAll apply Op.body (fun _ _ => true) (Db.boot demoHub "") announceClient).any fun db =>
        (snapshot db.toTables).filePeers.any fun peers => peers.map HubPeer.pub = ["pub3", "pub3"]) = true := by
      decide +kernel
    obtain ⟨db, hdb, hcheck⟩ := (Option.any_eq_true _ _).mp hrun
    obtain ⟨peers, hpeers, hkeys⟩ := (Option.any_eq_true _ _).mp hcheck
    refine ⟨db, hdb, _, snapshot_spec db.toTables, peers, hpeers, ?_⟩
    rw [of_decide_eq_true hkeys]
    decide

/-- One call at a time: generated keys are new, and no announced key is a client's. -/
def keepsKeys (op : Op) (db : Db) : Bool :=
  (op.generated.all fun key => db.nodes.all (fun n => n.keys.pub ≠ key) ∧ db.clients.all fun r => r.keys.pub ≠ key) ∧
    op.announced.all fun key => db.clients.all fun r => r.keys.pub ≠ key

/-- A call that runs alone and passes the check. -/
theorem keysApart_of_solo {i : Nat} {rest : Tx Unit} (hs : Solo s i ⟨op, n, pend, rest⟩)
    (hok : keepsKeys op s.committed = true) : KeysApart s := by
  have hone : ∀ j t, s.sessions j = some t → j = i ∧ t = ⟨op, n, pend, rest⟩ := by
    intro j t hj
    by_cases hji : j = i
    · subst hji
      exact ⟨rfl, Option.some.inj (hj.symm.trans hs.here)⟩
    · exact absurd (hj.symm.trans (hs.alone j hji)) (by simp)
  obtain ⟨hgen, hann⟩ := of_decide_eq_true hok
  refine ⟨fun j t hj key hkey => ?_, fun j k t t' hne hj hk => ?_, fun j t hj _ key hkey _ => ?_⟩
  · obtain ⟨rfl, rfl⟩ := hone j t hj
    have hall := (Option.all_eq_true _ _).mp hgen key hkey
    obtain ⟨hnodes, hclients⟩ := of_decide_eq_true hall
    refine ⟨?_, fun r hr => of_decide_eq_true (List.all_eq_true.mp hclients r hr), fun k t' hk ht' => ?_⟩
    · rintro ⟨n, hn, -, hpub⟩
      exact of_decide_eq_true (List.all_eq_true.mp hnodes n hn) hpub
    · exact absurd (hone k t' ht').1 hk
  · exact absurd ((hone j t hj).1.trans (hone k t' hk).1.symm) hne
  · obtain ⟨rfl, rfl⟩ := hone j t hj
    exact fun r hr => of_decide_eq_true (List.all_eq_true.mp ((Option.all_eq_true _ _).mp hann key hkey) r hr)

/-- A node is created, then a client, and the node announces itself. -/
def createdRun : List Op := [.ensureHubNode 9,
  .createNode 1 "home" "eth0" [⟨.ofBytes 192 168 1 0, 24⟩] ⟨"priv1", "pub1"⟩ "",
  .createClient 3 "phone" "" ⟨"priv3", "pub3"⟩ "",
  .enrollNode 4 "token" "home" "home" "eth0" "pub1" [⟨.ofBytes 192 168 1 0, 24⟩] 0]

theorem createdRun_texts : ∀ op ∈ createdRun, OpTexts op := by
  have hpub1 : Clean "pub1" := Solid.clean (by decide)
  have hpub3 : Clean "pub3" := Solid.clean (by decide)
  have hhome : Quiet "home" := by decide
  have hphone : Quiet "phone" := by decide
  simp only [createdRun, List.forall_mem_cons]
  exact ⟨trivial, ⟨hhome, hpub1, clean_empty⟩, ⟨hphone, hpub3, clean_empty⟩, ⟨hhome, hpub1, clean_empty⟩,
    fun _ hop => absurd hop List.not_mem_nil⟩

/-- The node's key stays its own, and the two peers of the file have different keys. -/
theorem peer_keys_created : ∃ db peers, runAll apply Op.body keepsKeys (Db.boot demoHub "") createdRun = some db ∧
    (db.nodes.filter fun n => n.keys.pub = "pub1").length ≤ 1 ∧
    (snapshot db.toTables).filePeers = some peers ∧ (peers.map HubPeer.pub).Nodup := by
  have hrun : (runAll apply Op.body keepsKeys (Db.boot demoHub "") createdRun).isSome = true := by decide +kernel
  obtain ⟨db, hdb⟩ := Option.isSome_iff_exists.mp hrun
  have hsteps : StepsIn apply Op.body KeysApart (Sys.idle (Db.boot demoHub "")) (Sys.idle db) := by
    refine stepsIn_of_calls_where (W := Op.Writes) (fun c => ?_) (fun hok hs _ => keysApart_of_solo hs hok)
      body_allWrites (calls_of_runAll hdb)
    exact ⟨fun j t hj => absurd hj (by simp [Sys.idle]), fun j k t t' _ hj => absurd hj (by simp [Sys.idle]),
      fun j t hj => absurd hj (by simp [Sys.idle])⟩
  have htexts : StepsIn apply Op.body (OpsIn OpTexts) (Sys.idle (Db.boot demoHub "")) (Sys.idle db) :=
    stepsIn_ops_of_calls (fun _ _ hop => hop.2) (calls_of_runAll_where createdRun_texts hdb)
  obtain ⟨hone, hfile⟩ := peer_keys hsteps
  obtain ⟨peers, hpeers, hnodup⟩ := hfile (by decide) htexts _ (snapshot_spec db.toTables)
  exact ⟨db, peers, hdb, hone "pub1" (by decide), hpeers, hnodup⟩

end Store
end BeautyAwg
