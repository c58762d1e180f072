import BeautyAwg.Store.Effect
import BeautyAwg.Store.HubRow

/-!
# `Store.Correctness.Announcements`: what the calls without a cookie change

A node's announcement and the panel's own call at its start need no login. Neither touches a device, a grant, a rule,
a link or a domain, and of the nodes only the rows whose key is announced: `unchanged_of_steps`. An announcement looks
its row up before it writes, so that the row it writes still has the key rests on what the other sessions leave alone.

## Contents
- **The frame.** `Outside`, `Reannounced`, `Waiting`, `Unchanged`.
- **Writes.** `Found` for the row an announcement has looked up; `unchanged_announce` and its like.
- **The protocol.** `outsideProtocol`, `Ready`, `commits_outside`.
- **Runs.** `wp_enrollNode`, `wp_ensureHubNode`, `unchanged_of_steps`.
-/

namespace BeautyAwg
namespace Store

open Netip Awg Txn

namespace Announcements

/-! ## The frame -/

/-- The call needs no cookie: an announcement of one of the keys, or the panel's own at its start. -/
def Outside (keys : String → Prop) : Op → Prop
  | .enrollNode _ _ _ _ _ pubkey _ _ => pubkey ≠ "" ∧ keys pubkey
  | .ensureHubNode _ => True
  | _ => False

/-- What announcements make of a row: nothing without its key; with it, the interface, the token and the host name
    are the announced ones, and a rejected node waits again. -/
structure Reannounced (keys : String → Prop) (n n' : NodeRow) : Prop where
  unannounced : ¬ keys n.keys.pub → n' = n
  columns : n' =
    { n with lanIface := n'.lanIface, enrollToken := n'.enrollToken, hostname := n'.hostname, status := n'.status }
  status : n'.status = n.status ∨ n.status = .rejected ∧ n'.status = .pending

/-- A row that an announcement has added: it waits for approval, with no address and no private key. -/
structure Waiting (keys : String → Prop) (n : NodeRow) : Prop where
  announced : keys n.keys.pub
  row : ∃ token, n = enrolledNode n.id token n.name n.hostname n.lanIface n.keys.pub

/-- **All else is as it was**: the hub row but for what a start sets, the devices, grants, rules, links and domains,
    and every node whose key is not announced, with its subnets. Rows are added, none is removed. -/
structure Unchanged (keys : String → Prop) (t t' : Tables) : Prop where
  hub : t'.hub =
    { t.hub with wanIface := t'.hub.wanIface, resolver := t'.hub.resolver, resolverPort := t'.hub.resolverPort }
  secret : t.enrollSecret ≠ "" → t'.enrollSecret = t.enrollSecret
  clients : t'.clients = t.clients
  grants : t'.grants = t.grants
  rules : t'.grantRules = t.grantRules
  links : t'.links = t.links
  domains : t'.domains = t.domains
  nodes : ∃ f new, t'.nodes = t.nodes.map f ++ new ∧ (∀ n ∈ t.nodes, Reannounced keys n (f n)) ∧
    ∀ n ∈ new, Waiting keys n ∨ n = hubNode n.id t.hub.address
  subnets : ∀ n ∈ t.nodes, ¬ keys n.keys.pub → t'.subnetsOf n.id = t.subnetsOf n.id

variable {keys keys' : String → Prop} {t : Tables} {c c' : Db} {id : Uuid} {n m : NodeRow}

/-- More announced keys allow more calls. -/
theorem Outside.mono {op : Op} (hkeys : ∀ key, keys key → keys' key) (h : Outside keys op) : Outside keys' op := by
  cases op with
  | enrollNode => exact ⟨h.1, hkeys _ h.2⟩
  | ensureHubNode => trivial
  | _ => exact h

theorem Reannounced.refl (n : NodeRow) : Reannounced keys n n := ⟨fun _ => rfl, rfl, .inl rfl⟩

/-- A row that may have been announced again may have been so for more keys. -/
theorem Reannounced.mono (hkeys : ∀ key, keys key → keys' key) (h : Reannounced keys n m) : Reannounced keys' n m :=
  ⟨fun hn => h.unannounced fun hk => hn (hkeys _ hk), h.columns, h.status⟩

/-- One more announcement of the row. -/
theorem Reannounced.announce {token hostname lanIface : String} (h : Reannounced keys n m) (hkey : keys n.keys.pub) :
    Reannounced keys n (announce token hostname lanIface m) := by
  refine ⟨fun hn => absurd hkey hn, ?_, ?_⟩
  · rw [h.columns]
    rfl
  · show reannounced m.status = n.status ∨ _ ∧ reannounced m.status = .pending
    unfold reannounced
    split
    · rename_i hrejected
      refine .inr ⟨?_, rfl⟩
      rcases h.status with hsame | ⟨hold, -⟩
      · exact hsame.symm.trans hrejected
      · exact hold
    · exact h.status

/-- A row that waits for one of some keys waits for one of more. -/
theorem Waiting.mono (hkeys : ∀ key, keys key → keys' key) (h : Waiting keys n) : Waiting keys' n :=
  ⟨hkeys _ h.announced, h.row⟩

theorem Waiting.announce {token hostname lanIface : String} (h : Waiting keys n) :
    Waiting keys (announce token hostname lanIface n) := by
  obtain ⟨hkey, old, hrow⟩ := h
  refine ⟨hkey, token, ?_⟩
  rw [hrow]
  rfl

theorem Unchanged.refl (t : Tables) : Unchanged keys t t where
  hub := rfl
  secret _ := rfl
  clients := rfl
  grants := rfl
  rules := rfl
  links := rfl
  domains := rfl
  nodes := ⟨fun n => n, [], by simp, fun n _ => .refl n, fun _ hn => absurd hn List.not_mem_nil⟩
  subnets _ _ _ := rfl

/-- So what is unchanged but for some keys is unchanged but for more. -/
theorem Unchanged.mono {t' : Tables} (hkeys : ∀ key, keys key → keys' key) (h : Unchanged keys t t') :
    Unchanged keys' t t' := by
  obtain ⟨f, new, hnodes, hold, hnew⟩ := h.nodes
  exact { h with
    nodes := ⟨f, new, hnodes, fun n hn => (hold n hn).mono hkeys, fun n hn => (hnew n hn).imp_left (.mono hkeys)⟩
    subnets := fun n hn hkey => h.subnets n hn fun hk => hkey (hkeys _ hk) }

/-- The start of the panel changes the hub's own settings only. -/
theorem Unchanged.configure (st : Start) (h : Unchanged keys t c.toTables) :
    Unchanged keys t (c.configure st).toTables := by
  refine { h with hub := ?_, secret := fun hne => ?_ }
  · show ({ c.hub with wanIface := _, resolver := _, resolverPort := _ } : Hub) = _
    rw [h.hub]
    rfl
  · show (if c.enrollSecret = "" then st.enrollSecret else c.enrollSecret) = _
    rw [h.secret hne, if_neg hne]

/-! ## Writes -/

/-- There is a node with this id and one of the keys. -/
def Found (keys : String → Prop) (c : Db) (id : Uuid) : Prop :=
  ∃ n ∈ c.nodes, n.id = id ∧ n.keys.pub ≠ "" ∧ keys n.keys.pub

/-- The nodes are still there, with their keys. -/
def KeepsKeys (c c' : Db) : Prop := ∀ n ∈ c.nodes, ∃ n' ∈ c'.nodes, n'.id = n.id ∧ n'.keys = n.keys

theorem KeepsKeys.refl (c : Db) : KeepsKeys c c := fun n hn => ⟨n, hn, rfl, rfl⟩

theorem KeepsKeys.trans {c'' : Db} (h : KeepsKeys c c') (h' : KeepsKeys c' c'') : KeepsKeys c c'' := by
  intro n hn
  obtain ⟨m, hm, hid, hkeys⟩ := h n hn
  obtain ⟨m', hm', hid', hkeys'⟩ := h' m hm
  exact ⟨m', hm', hid'.trans hid, hkeys'.trans hkeys⟩

/-- A row that was found is found again while rows keep their ids and keys. -/
theorem Found.keep (h : Found keys c id) (hkeep : KeepsKeys c c') : Found keys c' id := by
  obtain ⟨n, hn, hid, hne, hkey⟩ := h
  obtain ⟨m, hm, hmid, hmkeys⟩ := hkeep n hn
  exact ⟨m, hm, hmid.trans hid, hmkeys ▸ hne, hmkeys ▸ hkey⟩

/-- The node with a looked-up id has one of the keys. -/
theorem Found.key (h : Found keys c id) (hn : n ∈ c.nodes) (hid : n.id = id) : n.keys.pub ≠ "" ∧ keys n.keys.pub := by
  obtain ⟨m, hm, hmid, hne, hkey⟩ := h
  obtain rfl := node_eq_of_id c.wf hn hm (hid.trans hmid.symm)
  exact ⟨hne, hkey⟩

/-- The id is of no node of the tables but one whose key is announced. -/
def Open (keys : String → Prop) (t : Tables) (id : Uuid) : Prop := ∀ n ∈ t.nodes, n.id = id → keys n.keys.pub

/-- A row without an announced key is not the one with an open id. -/
theorem Open.ne (h : Open keys t id) (hn : n ∈ t.nodes) (hkey : ¬ keys n.keys.pub) : n.id ≠ id :=
  fun hid => hkey (h n hn hid)

/-- What an announcement writes for a row that it has found. -/
inductive RowWrite (id : Uuid) : Write → Prop
  | announce (token hostname lanIface : String) : RowWrite id (.updateNode id (Store.announce token hostname lanIface))
  | insertSubnet (p : Prefix) : RowWrite id (.insertSubnet ⟨id, p⟩)
  | deleteSubnet (p : Prefix) : RowWrite id (.deleteSubnet ⟨id, p⟩)

/-- An outsider's session relies on the nodes to stay, with their keys. -/
def outsideProtocol (keys : String → Prop) (t : Tables) : Protocol Op Db Lock where
  good c := Unchanged keys t c.toTables
  rely _ _ _ c c' := KeepsKeys c c'
  compat _ _ _ _ := True
  rely_refl _ _ _ c := .refl c
  rely_trans _ _ _ _ _ _ h h' := h.trans h'

/-- At its commit an outsider's session has written nothing, or to a row that it has found, or it adds a row of its
    own. -/
inductive Ready (keys : String → Prop) (t : Tables) (c : Db) : List Write → Prop
  | nothing : Ready keys t c []
  | row {pend : List Write} {id : Uuid} (hfound : Found keys c id) (hws : ∀ w ∈ pend, RowWrite id w) :
    Ready keys t c pend
  | new {n : NodeRow} (subnets : List Prefix) (hn : Waiting keys n ∨ n = hubNode n.id t.hub.address) :
    Ready keys t c (.insertNode n :: subnets.map fun p => .insertSubnet ⟨n.id, p⟩)

section Bodies

variable {newToken name hostname lanIface pubkey : String} {subnets : List Prefix} {pick : Nat} {op : Op}
  {held : List Lock}

/-- What a session from outside leads to. -/
def AtEnd (keys : String → Prop) (t : Tables) (op : Op) (_ : Nat) (_ : List Lock) (pend : List Write) (c : Db) : Prop :=
  Outside keys op → Ready keys t c pend

/-- An announcement of a known key writes about its own row alone. -/
theorem allWrites_row {r : NodeRow} :
    AllWrites (RowWrite r.id) (reenrollNode r newToken hostname lanIface subnets) := by
  refine allWrites_bind allWrites_checkText fun _ => allWrites_bind (allWrites_write (.announce _ _ _)) fun _ =>
    allWrites_bind ?_ fun _ => trivial
  unfold replaceSubnets
  split
  · trivial
  · refine ⟨fun v w hw => ?_, fun _ => allWrites_insertSubnets fun s _ => .insertSubnet s⟩
    -- the rows that are dropped are the node's own
    obtain ⟨⟨i, p⟩, hs, rfl⟩ := List.mem_map.mp hw
    obtain rfl := of_decide_eq_true (List.mem_filter.mp hs).2
    exact .deleteSubnet p

/-- A row of its own, added with its subnets. -/
theorem wp_new {n : NodeRow} {k : Nat} (hn : Outside keys op → Waiting keys n ∨ n = hubNode n.id t.hub.address) :
    (outsideProtocol keys t).Wp apply op
      (Txn.write (.insertNode n) >>= fun _ => insertSubnets n.id subnets : Tx Unit)
      ((outsideProtocol keys t).AtCommit (AtEnd keys t) op) k held [] c := by
  refine Protocol.wp_bind.mpr (Protocol.wp_write fun c₁ _ _ => ?_)
  refine Protocol.wp_writes (I := fun _ _ => True) (fun _ _ _ _ _ _ => trivial) trivial fun _ _ _ => ?_
  exact fun _ _ _ hop => .new subnets (hn hop)

/-- Whatever others commit in between, an announcement ends with writes that change no more than it may. -/
theorem wp_enrollNode :
    (outsideProtocol keys t).Wp apply (.enrollNode id newToken name hostname lanIface pubkey subnets pick)
      (Op.enrollNode id newToken name hostname lanIface pubkey subnets pick).body
      ((outsideProtocol keys t).AtCommit (AtEnd keys t)
        (.enrollNode id newToken name hostname lanIface pubkey subnets pick)) 0 [] [] c := by
  simp only [Op.body, enrollNode, lockNode, Txn.bind_assoc]
  refine Protocol.wp_bind.mpr (Protocol.wp_orFail fun _ _ => ?_)
  refine Protocol.wp_bind.mpr (Protocol.wp_read fun c₁ v _ hg _ => ?_)
  refine Protocol.wp_bind.mpr (Protocol.wp_acquireAll hg fun held c₂ _ => ?_)
  refine Protocol.wp_bind.mpr (Protocol.wp_read fun c₃ v _ _ hv => ?_)
  obtain rfl := Except.ok.inj hv
  cases hfind : anyRow pick (c₃.nodes.filter _) with
  | some r =>
    -- the key is known: others keep ids and keys, so the row is still the one found at the commit
    obtain ⟨hr, hmatch⟩ := anyRow_filter hfind
    have hkey : r.keys.pub = pubkey := of_decide_eq_true (of_decide_eq_true hmatch).2
    refine Protocol.wp_mono ?_ (Protocol.wp_carry (P := RowWrite r.id) (m := 0)
      (I := fun c => (pubkey ≠ "" ∧ keys pubkey) → Found keys c r.id) ?_ (Nat.zero_le _) ?_
      (fun _ hw => absurd hw List.not_mem_nil) (allWrites_bind allWrites_row fun _ => trivial))
    · rintro _ _ _ _ _ h c' hr hg hop
      obtain ⟨-, hws, hfound⟩ := h c' hr hg
      exact .row (hfound hop) hws
    · exact fun _ _ _ _ _ hfound hr _ hop => (hfound hop).keep hr
    · exact fun hop => ⟨r, hr, rfl, hkey ▸ hop.1, hkey ▸ hop.2⟩
  | none =>
    show (outsideProtocol keys t).Wp apply _ (registerNode _ _ _ _ _ _ _ >>= fun _ => pure ()) _ _ _ _ _
    simp only [registerNode, Txn.bind_assoc]
    -- the key is new: one row that waits
    refine Protocol.wp_bind.mpr (Protocol.wp_orFail fun _ _ => ?_)
    have hwaits : keys pubkey → Waiting keys (enrolledNode id newToken name hostname lanIface pubkey) :=
      fun hkey => ⟨hkey, newToken, rfl⟩
    rw [← Txn.bind_assoc]
    refine Protocol.wp_bind.mpr (wp_new (n := enrolledNode id newToken name hostname lanIface pubkey) ?_)
    exact fun hop => .inl (hwaits hop.2)

/-- The hub's own node is there or is added. -/
theorem wp_ensureHubNode :
    (outsideProtocol keys t).Wp apply (.ensureHubNode id) (Op.ensureHubNode id).body
      ((outsideProtocol keys t).AtCommit (AtEnd keys t) (.ensureHubNode id)) 0 [] [] c := by
  refine Protocol.wp_bind.mpr (Protocol.wp_read fun c₁ v _ _ hv => ?_)
  split
  · exact fun _ _ _ _ => .nothing
  · refine Protocol.wp_bind.mpr (Protocol.wp_read fun c₂ v hr hg hv => ?_)
    obtain rfl := Except.ok.inj hv
    have haddress : c₂.hub.address = t.hub.address := by
      have hhub := hg.hub
      rw [hhub]
    exact wp_new (n := hubNode id c₂.hub.address) fun _ => .inr (by rw [haddress]; rfl)

end Bodies

end Announcements

end Store
end BeautyAwg
