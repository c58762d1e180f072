import BeautyAwg.Api.Correctness.HubConfig
import BeautyAwg.Api.Correctness.IfaceNames
import BeautyAwg.Awg.Correctness.Ends
import BeautyAwg.NodeAgent.Correctness.KeyText
import BeautyAwg.Store.Correctness.Addresses
import BeautyAwg.Store.Export
import BeautyAwg.Store.HubRow

/-!
# `Api.Correctness.HandedOut`: files that were handed out keep working

A device imports its file once, a home server keeps its file while the panel cannot be reached. Meanwhile rows are
renamed, granted, disabled, deleted, and the panel is started again with another configuration. As long as the row
itself stays in the hub's file, that file and the one handed out still make a tunnel: `device_file_matches`,
`node_file_matches`.

## Contents
- **Runs.** `Later`: what can happen to the database between two prints.
- **Rows.** `HandsOut`, `RowsOut`: the keys and texts that calls store.
- **Fixed columns.** `later_hub`, `device_stays`, `site_stays`.
- **Results.** `device_file_matches`, `node_file_matches`.
-/

namespace BeautyAwg
namespace Api

open Netip Awg Store Txn QuickConf Tunnel NodeAgent Replace

/-! ## Runs -/

/-- A start of the panel, or calls of any overlap up to some point. -/
inductive LaterStep (ok : Op → Prop) : Db → Db → Prop
  | start (c : Db) (st : Start) : LaterStep ok c (c.configure st)
  | calls {c s} (h : StepsIn apply Op.body (OpsIn ok) (Sys.idle c) s) : LaterStep ok c s.committed

/-- Any number of starts and stretches of calls. -/
def Later (ok : Op → Prop) : Db → Db → Prop := Relation.ReflTransGen (LaterStep ok)

variable {ok : Op → Prop} {c d : Db}

/-- What every start and every series of calls keeps holds later on. -/
theorem Later.induction {I : Db → Prop} (hstart : ∀ c st, I c → I (c.configure st))
    (hcalls : ∀ c s, StepsIn apply Op.body (OpsIn ok) (Sys.idle c) s → I c → I s.committed) (h : Later ok c d)
    (hc : I c) : I d := by
  induction h with
  | refl => exact hc
  | tail _ hstep ih =>
    cases hstep with
    | start st => exact hstart _ st ih
    | calls h => exact hcalls _ _ h ih

theorem Later.mono {ok' : Op → Prop} (h : Later ok c d) (hok : ∀ op, ok op → ok' op) : Later ok' c d := by
  refine h.lift id fun c d hstep => ?_
  cases hstep with
  | start st => exact .start c st
  | calls h => exact .calls (h.lift id fun _ _ hs => ⟨fun i t ht => hok _ (hs.1 i t ht), hs.2⟩)

theorem steps_of_stepsIn {s s' : Server} {P : Server → Prop} (h : StepsIn apply Op.body P s s') :
    Steps apply Op.body s s' :=
  h.lift id fun _ _ hs => ⟨trivial, hs.2⟩

/-! ## Rows -/

section Rows

variable (pubOf : String → String)

/-- A key pair that a call carries is one. -/
def OpPaired : Op → Prop
  | .createNode _ _ _ _ keys _ | .createClient _ _ _ keys _ => pubOf keys.priv = keys.pub
  | _ => True

/-- A call of a request with clean texts. -/
structure HandsOut (op : Op) : Prop where
  call : Call AdminReq.TextsOk EnrollReq.TextsOk op
  pair : OpPaired pubOf op

/-- A device's stored keys are a pair, and fit to be printed. -/
structure ClientOut (r : ClientRow) : Prop where
  priv : isBase64 r.keys.priv = true
  pair : pubOf r.keys.priv = r.keys.pub

/-- A home server that enrolled keeps its private key to itself. -/
structure NodeOut (r : NodeRow) : Prop where
  priv : isBase64 r.keys.priv = true
  pair : r.keys.priv ≠ "" → pubOf r.keys.priv = r.keys.pub
  preshared : isBase64 r.preshared = true
  iface : r.lanIface = "" ∨ validIface r.lanIface = true

/-- Every row of the tables can be handed out. -/
def RowsOut (t : Tables) : Prop := (∀ r ∈ t.clients, ClientOut pubOf r) ∧ ∀ r ∈ t.nodes, NodeOut pubOf r

/-- A write that stores such rows, or leaves them so. -/
def WriteOut : Write → Prop
  | .insertNode r => NodeOut pubOf r
  | .updateNode _ f => ∀ r, NodeOut pubOf r → NodeOut pubOf (f r)
  | .insertClient r => ClientOut pubOf r
  | .updateClient _ f => ∀ r, ClientOut pubOf r → ClientOut pubOf (f r)
  | _ => True

variable {pubOf}

/-- An interface name that the handler accepts is valid. -/
theorem validIface_of_createNode {fresh : Fresh} {req : CreateNodeReq} {ops : List Op}
    (h : handleCreateNode fresh req = .ok ops) : validIface req.lanIface = true := by
  simp only [handleCreateNode] at h
  split at h
  · cases h
  · obtain ⟨_, hcheck, -⟩ := ok_of_bind_ok h
    exact validIface_of_check hcheck

/-- An announced interface name that is accepted is valid. -/
theorem validIface_of_enroll {fresh : Fresh} {secret header : String} {req : EnrollReq} {op : Op}
    (h : handleEnroll fresh secret header req = .ok op) : validIface req.lanIface = true := by
  simp only [handleEnroll] at h
  split at h
  · cases h
  · split at h
    · cases h
    · obtain ⟨_, hcheck, -⟩ := ok_of_bind_ok h
      exact validIface_of_check hcheck

/-- What the call stores beside its texts. -/
def OpOut (pubOf : String → String) : Op → Prop
  | .createNode _ _ lanIface _ keys psk =>
    isBase64 keys.priv = true ∧ pubOf keys.priv = keys.pub ∧ isBase64 psk = true ∧ validIface lanIface = true
  | .createClient _ _ _ keys _ => isBase64 keys.priv = true ∧ pubOf keys.priv = keys.pub
  | .enrollNode _ _ _ _ lanIface _ _ _ => validIface lanIface = true
  | _ => True

/-- A request that hands out keys carries texts that can be printed. -/
theorem opOut_of_handsOut {op : Op} (h : HandsOut pubOf op) : OpOut pubOf op := by
  obtain ⟨hcall, hpair⟩ := h
  cases hcall with
  | start id => trivial
  | @admin fresh req ops op hreq hcalls hop =>
    cases sends_of_calls hcalls hop with
    | createNode => exact ⟨fresh.keys_base64.1, hpair, fresh.psk_base64, validIface_of_createNode hcalls⟩
    | createClient => exact ⟨fresh.keys_base64.1, hpair⟩
    | _ => trivial
  | enroll hreq hcall =>
    have hiface := validIface_of_enroll hcall
    obtain ⟨subnets, rfl⟩ := handleEnroll_ok hcall
    exact hiface

/-- All of its writes do. -/
theorem writeOut_of_opOut {op : Op} {w : Write} (h : OpOut pubOf op) (hw : op.Writes w) : WriteOut pubOf w := by
  have hempty : isBase64 "" = true := by decide
  cases hw with
  | createNode a => exact ⟨h.1, fun _ => h.2.1, h.2.2.1, .inr h.2.2.2⟩
  | createClient a => exact ⟨h.1, h.2⟩
  | enrollNode => exact ⟨hempty, fun hne => absurd rfl hne, hempty, .inr h⟩
  | ensureHubNode a => exact ⟨hempty, fun hne => absurd rfl hne, hempty, .inl rfl⟩
  | enrollNode_known known token => exact fun r hr => ⟨hr.priv, hr.pair, hr.preshared, .inr h⟩
  | approveNode | rejectNode | renameNode | setNodeDNS | setNodeColor =>
    exact fun r hr => ⟨hr.priv, hr.pair, hr.preshared, hr.iface⟩
  | updateClient | renameClient | setClientColor => exact fun r hr => ⟨hr.priv, hr.pair⟩
  | _ => trivial

/-- Such a write leaves the stored texts printable. -/
theorem rowsOut_apply {w : Write} {c c' : Db} (hw : WriteOut pubOf w) (happly : apply w c = .ok c')
    (h : RowsOut pubOf c.toTables) : RowsOut pubOf c'.toTables := by
  rw [← apply_eq_ok.mp happly]
  obtain ⟨hclients, hnodes⟩ := h
  cases w with
  | insertNode r =>
    exact ⟨hclients, fun n hn => (List.mem_append.mp hn).elim (hnodes n) fun h => List.mem_singleton.mp h ▸ hw⟩
  | insertClient r =>
    exact ⟨fun c hc => (List.mem_append.mp hc).elim (hclients c) fun h => List.mem_singleton.mp h ▸ hw, hnodes⟩
  | updateNode id f =>
    refine ⟨hclients, fun n hn => ?_⟩
    obtain ⟨r, hr, rfl⟩ := List.mem_map.mp hn
    split
    · exact hw r (hnodes r hr)
    · exact hnodes r hr
  | updateClient id f =>
    refine ⟨fun c hc => ?_, hnodes⟩
    obtain ⟨r, hr, rfl⟩ := List.mem_map.mp hc
    split
    · exact hw r (hclients r hr)
    · exact hclients r hr
  | deleteNode id => exact ⟨hclients, fun n hn => hnodes n (List.mem_filter.mp hn).1⟩
  | deleteClient id => exact ⟨fun c hc => hclients c (List.mem_filter.mp hc).1, hnodes⟩
  | _ => exact ⟨hclients, hnodes⟩

end Rows

/-! ## Fixed columns -/

theorem sameHub_refl (hub : Hub) : SameHub hub hub := ⟨rfl, rfl, rfl, rfl, rfl⟩

/-- The columns of the hub row that every file prints. -/
theorem later_hub (h : Later ok c d) : SameHub d.hub c.hub := by
  refine h.induction (I := fun d : Db => SameHub d.hub c.hub) (fun d st hd => ?_) (fun d s hs hd => ?_) (sameHub_refl _)
  · exact ⟨hd.endpoint, hd.address, hd.pool, hd.keys, hd.params⟩
  · rw [hub_of_calls (steps_of_stepsIn hs)]
    exact hd

/-- What the panel keeps of the texts and addresses that a file prints. -/
structure Printable (pubOf : String → String) (db : Db) : Prop where
  texts : StoredTexts db.toTables
  rows : RowsOut pubOf db.toTables
  addresses : AddrInv db.hub db

/-- So the tables can be printed at every later time. -/
theorem later_printable {pubOf : String → String} (h : Later (HandsOut pubOf) c d) (hc : Printable pubOf c) :
    Printable pubOf d := by
  refine h.induction (fun d st hd => ?_) (fun d s hs hd => ?_) hc
  · obtain ⟨htexts, hrows, haddr⟩ := hd
    refine ⟨⟨htexts.hub, htexts.nodes, htexts.clients⟩, hrows,
      ⟨rfl, haddr.disjoint, fun r hr => ?_, fun n hn a ha => ?_⟩⟩
    · have hhost := haddr.client_host r hr
      exact ⟨hhost.inPool, hhost.ne_network, hhost.ne_last, hhost.ne_hub⟩
    · exact (haddr.node_host n hn a ha).imp (fun hhost => ⟨hhost.inPool, hhost.ne_network, hhost.ne_last, hhost.ne_hub⟩)
        id
  · have htexts : StoredTexts s.committed.toTables :=
      storedTexts_of_steps hd.texts (stepsIn_mono (fun _ hops i t ht => opTexts_of_call (hops i t ht).call) hs)
    have hrows : RowsOut pubOf s.committed.toTables :=
      good_of_writes (I := fun c : Db => RowsOut pubOf c.toTables) body_allWrites
        (fun _ _ _ _ hop hw => rowsOut_apply (writeOut_of_opOut (opOut_of_handsOut hop) hw)) hd.rows hs
    have hsteps := steps_of_stepsIn hs
    have haddr : AddrInv d.hub s.committed :=
      Protocol.good_of_all_steps (π := addrProtocol d.hub) (fun _ _ _ _ => trivial) (fun op c _ => body_wp op c)
        hd.addresses hsteps
    rw [← hub_of_calls hsteps] at haddr
    exact ⟨htexts, hrows, haddr⟩

/-- The columns of a client's row that its own file and the hub's print. -/
def SameDevice (r r' : ClientRow) : Prop := r.id = r'.id ∧ r.keys = r'.keys ∧ r.address = r'.address ∧
  r.preshared = r'.preshared

theorem sameDevice_of_update {op : Op} {id : Uuid} {f : ClientRow → ClientRow}
    (h : op.Writes (.updateClient id f)) (r : ClientRow) : SameDevice (f r) r := by
  cases h <;> exact ⟨rfl, rfl, rfl, rfl⟩

/-- A device is found again, with the same keys and address, after every write but its deletion. -/
theorem device_of_apply {op : Op} {w : Write} {c c' : Db} {r : ClientRow} (hop : op ≠ .deleteClient r.id)
    (hw : op.Writes w) (happly : apply w c = .ok c') (h : ∃ r' ∈ c.clients, SameDevice r' r) :
    ∃ r' ∈ c'.clients, SameDevice r' r := by
  obtain ⟨r', hr', hsame⟩ := h
  rw [apply_eq_ok] at happly
  rw [← happly]
  cases w with
  | insertClient x => exact ⟨r', List.mem_append_left _ hr', hsame⟩
  | updateClient id f =>
    refine ⟨_, List.mem_map_of_mem hr', ?_⟩
    split
    · obtain ⟨hid, hkeys, haddr, hpsk⟩ := sameDevice_of_update hw r'
      exact ⟨hid.trans hsame.1, hkeys.trans hsame.2.1, haddr.trans hsame.2.2.1, hpsk.trans hsame.2.2.2⟩
    · exact hsame
  | deleteClient id =>
    have hid : op = .deleteClient id := by
      cases hw
      rfl
    have hne : r'.id ≠ id := fun he => hop (hid.trans (congrArg Op.deleteClient (he.symm.trans hsame.1)))
    exact ⟨r', List.mem_filter.mpr ⟨hr', by simp [hne]⟩, hsame⟩
  | _ => exact ⟨r', hr', hsame⟩

/-- A device that is not deleted keeps these columns. -/
theorem device_stays {r : ClientRow} (h : Later (fun op => ok op ∧ op ≠ .deleteClient r.id) c d) (hr : r ∈ c.clients) :
    ∃ r' ∈ d.clients, SameDevice r' r :=
  h.induction (I := fun d : Db => ∃ r' ∈ d.clients, SameDevice r' r) (fun _ _ hd => hd)
    (fun _ _ hs hd => good_of_writes body_allWrites (fun _ _ _ _ hop hw => device_of_apply hop.2 hw) hd hs)
    ⟨r, hr, rfl, rfl, rfl, rfl⟩

/-- The columns of a site's row that its own file and the hub's print. -/
structure SameSite (n n' : NodeRow) : Prop where
  id : n.id = n'.id
  keys : n.keys = n'.keys
  address : n.address = n'.address
  preshared : n.preshared = n'.preshared
  isHub : n.isHub = n'.isHub
  active : n.status = .active

/-- The write leaves a site's row as it is in these columns. -/
def KeepsSite (n : NodeRow) : Write → Prop
  | .updateNode id f => id = n.id → ∀ m, SameSite m n → SameSite (f m) n
  | .deleteNode id => id ≠ n.id
  | _ => True

/-- The writes of a call that is not about a node's decision or deletion leave its site. -/
theorem keepsSite_of_writes {n : NodeRow} {op : Op} {w : Write} (hw : op.Writes w) (happrove : op ≠ .approveNode n.id)
    (hreject : op ≠ .rejectNode n.id) (hdelete : op ≠ .deleteNode n.id) : KeepsSite n w := by
  cases hw with
  | enrollNode_known known token =>
    refine fun _ m hm => ⟨hm.id, hm.keys, hm.address, hm.preshared, hm.isHub, ?_⟩
    show reannounced m.status = .active
    rw [hm.active]
    rfl
  | approveNode a => exact fun he => absurd (congrArg Op.approveNode he) happrove
  | rejectNode => exact fun he => absurd (congrArg Op.rejectNode he) hreject
  | deleteNode => exact fun he => hdelete (congrArg Op.deleteNode he)
  | renameNode | setNodeDNS | setNodeColor =>
    exact fun _ m hm => ⟨hm.id, hm.keys, hm.address, hm.preshared, hm.isHub, hm.active⟩
  | _ => trivial

/-- The site still stands, with the columns that its file and the hub's print. -/
def SiteIn (n : NodeRow) (c : Db) : Prop := ∃ m ∈ c.nodes, SameSite m n

/-- After a write that leaves it the site is found again. -/
theorem siteIn_apply {n : NodeRow} {w : Write} {c c' : Db} (hw : KeepsSite n w) (happly : apply w c = .ok c')
    (h : SiteIn n c) : SiteIn n c' := by
  obtain ⟨m, hm, hsame⟩ := h
  rw [apply_eq_ok] at happly
  unfold SiteIn
  rw [← happly]
  cases w with
  | insertNode x => exact ⟨m, List.mem_append_left _ hm, hsame⟩
  | updateNode id f =>
    refine ⟨_, List.mem_map_of_mem hm, ?_⟩
    split
    · rename_i he
      exact hw (he.symm.trans hsame.id) m hsame
    · exact hsame
  | deleteNode id =>
    have hne : m.id ≠ id := fun he => hw (he.symm.trans hsame.id)
    exact ⟨m, List.mem_filter.mpr ⟨hm, by simp [hne]⟩, hsame⟩
  | _ => exact ⟨m, hm, hsame⟩

/-- While the site is active, its approval has nothing to do. -/
theorem wp_approve {n : NodeRow} {op : Op} {k : Nat} {held : List Lock} {c : Db} (haddr : n.address ≠ none) :
    (Protocol.alone (SiteIn n)).Wp apply op (approveNode n.id)
      ((Protocol.alone (SiteIn n)).AtCommit (fun _ _ _ pend _ => ∀ w ∈ pend, KeepsSite n w) op) k held [] c := by
  refine Protocol.wp_bind.mpr (Protocol.wp_bind.mpr (Protocol.wp_read fun c₁ v₁ _ hg₁ _ => ?_))
  refine Protocol.wp_bind.mpr (Protocol.wp_acquireAll hg₁ fun held' c₂ hg₂ => ?_)
  refine Protocol.wp_read fun c₃ v₃ _ hg₃ hv₃ => Protocol.wp_bind.mpr (Protocol.wp_orFail fun m hm => ?_)
  obtain rfl := Except.ok.inj hv₃
  obtain ⟨m', hm', hsame⟩ := hg₃
  obtain ⟨hmem, hfound⟩ := anyRow_filter hm
  have hid : m.id = n.id := of_decide_eq_true (of_decide_eq_true hfound).2
  obtain rfl := node_eq_of_id c₃.wf hmem hm' (hid.trans hsame.id.symm)
  rw [if_pos ⟨hsame.active, hsame.address ▸ haddr⟩]
  exact fun _ _ _ w hw => absurd hw List.not_mem_nil

/-- The call neither rejects nor deletes the node. -/
def LeavesIn (id : Uuid) (op : Op) : Prop := op ≠ .rejectNode id ∧ op ≠ .deleteNode id

/-- A site that is neither rejected nor deleted keeps these columns, its address included. -/
theorem site_stays {n : NodeRow} (h : Later (fun op => ok op ∧ LeavesIn n.id op) c d) (hn : n ∈ c.nodes)
    (hactive : n.status = .active) (haddr : n.address ≠ none) : SiteIn n d := by
  refine h.induction (fun _ _ hd => hd) (fun d s hs hd => ?_) ⟨n, hn, rfl, rfl, rfl, rfl, rfl, hactive⟩
  refine Protocol.good_of_steps_where (π := Protocol.alone (SiteIn n))
    (R := fun op _ _ pend _ => LeavesIn n.id op → ∀ w ∈ pend, KeepsSite n w) (fun op c hc => ?_) ?_ hd hs
  · by_cases happrove : op = .approveNode n.id
    · subst happrove
      exact Protocol.wp_mono (fun _ _ _ _ _ hR c' hr hg _ => hR c' hr hg) (wp_approve haddr)
    · by_cases hleaves : LeavesIn n.id op
      · have hwrites : AllWrites (KeepsSite n) op.body :=
          (body_allWrites op).mono fun w hw => keepsSite_of_writes hw happrove hleaves.1 hleaves.2
        exact Protocol.wp_mono (fun _ _ _ _ _ hR c' hr hg _ => hR c' hr hg)
          (Protocol.wp_writes_of_allWrites (fun _ hw => absurd hw List.not_mem_nil) hwrites)
      · exact Protocol.wp_mono (fun _ _ _ _ _ _ c' _ _ hin => absurd hin hleaves)
          (Protocol.wp_writes_of_allWrites (P := fun _ => True) (fun _ _ => trivial) (allWrites_true _))
  · intro s hP hg i t held c' ht hret hR happly
    have hkeeps := hR (hP i t ht).2
    exact ⟨applyAll_induction (fun w hw _ _ hs hgood => siteIn_apply (hkeeps w hw) hs hgood) happly hg,
      fun _ _ _ _ _ _ => trivial⟩

/-! ## Results -/

/-- The hub row of a first start: a key pair, texts that stay in their lines, an address of the IPv4 pool. -/
structure HubOk (pubOf : String → String) (hub : Hub) : Prop where
  priv : isBase64 hub.keys.priv = true
  pub : isBase64 hub.keys.pub = true
  pair : pubOf hub.keys.priv = hub.keys.pub
  endpoint : Clean hub.endpoint
  pool : hub.poolCIDR.is4 = true
  address : hub.poolCIDR.contains hub.address = true

/-- An empty panel can be printed. -/
theorem printable_boot {pubOf : String → String} {hub : Hub} (secret : String) (h : HubOk pubOf hub) :
    Printable pubOf (Db.boot hub secret) :=
  ⟨storedTexts_boot secret (clean_of_base64 h.priv), ⟨by simp [Db.boot], by simp [Db.boot]⟩,
    addrInv_boot hub secret⟩

theorem hubOk_of_same {pubOf : String → String} {hub hub' : Hub} (h : HubOk pubOf hub) (hsame : SameHub hub' hub) :
    HubOk pubOf hub' := by
  obtain ⟨hendpoint, haddr, hpool, hkeys, -⟩ := hsame
  exact ⟨hkeys ▸ h.priv, hkeys ▸ h.pub, hkeys ▸ h.pair, hendpoint ▸ h.endpoint, hpool ▸ h.pool,
    by rw [hpool, haddr]; exact h.address⟩

theorem HubOk.is4 {pubOf : String → String} {hub : Hub} (h : HubOk pubOf hub) : hub.address.is4 = true := by
  obtain ⟨y, hy⟩ := v4_of_contains h.pool h.address
  rw [hy]
  rfl

/-- The hub's address with the pool's length is a prefix. -/
theorem HubOk.valid {pubOf : String → String} {hub : Hub} (h : HubOk pubOf hub) :
    (⟨hub.address, hub.poolCIDR.bits⟩ : Prefix).isValid = true := by
  obtain ⟨y, hy⟩ := v4_of_contains h.pool h.address
  rw [hy]
  have hvalid := Prefix.isValid_of_contains h.address
  have hpool := h.pool
  cases hpoolAddr : hub.poolCIDR.addr with
  | v4 a =>
    simp only [Prefix.isValid, hpoolAddr] at hvalid
    exact hvalid
  | invalid | v6 => simp [Prefix.is4, hpoolAddr, Addr.is4] at hpool

/-- The hub's file reads back as the hub's end of the tunnel. -/
theorem Printable.hubFile {pubOf : String → String} {out : Snapshot} (h : Printable pubOf d)
    (hout : SnapshotOf d.toTables out) :
    read (renderHub out.hub out.nodes out.clients) = some (hubEnd out.hub out.nodes out.clients) :=
  h.texts.read hout

/-- The two files, read back, are the ends of a tunnel. -/
def Tunnels (pubOf : String → String) (hubFile file : String) : Prop :=
  ∃ a b, read hubFile = some a ∧ read file = some b ∧ Pair pubOf sharedKeys a b

/-- An enabled device is in the snapshot. -/
theorem listed_client {r : ClientRow} {out : Snapshot} (hout : SnapshotOf d.toTables out) (hr : r ∈ d.clients)
    (henabled : r.enabled = true) : r.toClient ∈ out.clients := by
  obtain ⟨nodes, clients, rules, grants, links, -, hclients, -, -, -, rfl⟩ := hout
  have hmem : (r.id, r.toClient) ∈ clients :=
    hclients.2.mem_iff.mpr (List.mem_map_of_mem (List.mem_filter.mpr ⟨hr, henabled⟩))
  exact List.mem_map_of_mem hmem

/-- **A device's file keeps working**: the one of any moment and the hub's file of any later one, with any calls that
    overlap and any starts of the panel between them, make a tunnel while the device is enabled and has not been
    deleted. -/
theorem device_file_matches {pubOf : String → String} {hub : Hub} {secret : String} {c d : Db} {id : Uuid}
    {exp : ClientExport} {out : Snapshot} (hhub : HubOk pubOf hub)
    (hbefore : Later (HandsOut pubOf) (Db.boot hub secret) c) (hexp : ExportOf c.toTables id (.ok exp))
    (hdns : Clean (clientDNS exp.hub exp.client exp.grants))
    (hafter : Later (fun op => HandsOut pubOf op ∧ op ≠ .deleteClient id) c d)
    (henabled : ∀ r ∈ d.clients, r.id = id → r.enabled = true) (hout : SnapshotOf d.toTables out) :
    Tunnels pubOf (renderHub out.hub out.nodes out.clients) (renderClient exp.hub exp.client exp.grants) := by
  have hc := later_printable hbefore (printable_boot secret hhub)
  have hd := later_printable (hafter.mono fun _ hop => hop.1) hc
  have hhubC : HubOk pubOf c.hub := hubOk_of_same hhub (later_hub hbefore)
  have hhubD : HubOk pubOf d.hub := hubOk_of_same hhubC (later_hub hafter)
  obtain ⟨r, hr, rfl, rows, rules, -, -, rfl⟩ := hexp
  have hrow := hc.rows.1 r hr
  have htexts : HubTexts c.hub := ⟨clean_of_base64 hhubC.pub, hhubC.endpoint⟩
  -- the row is still there, so the hub's file lists it
  obtain ⟨r', hr', hid, hkeys, haddr, hpsk⟩ := device_stays hafter hr
  have hlisted : r'.toClient ∈ out.clients := listed_client hout hr' (henabled r' hr' hid)
  have h4 : r.address.is4 = true := by
    obtain ⟨y, hy⟩ := v4_of_contains hhubC.pool (hc.addresses.client_host r hr).inPool
    rw [hy]
    rfl
  refine ⟨_, _, hd.hubFile hout, read_renderClient htexts (clean_of_base64 hrow.priv) (hc.texts.clients r hr).preshared
    hdns, ?_⟩
  have hsame : SameHub out.hub c.hub := hout.hub ▸ later_hub hafter
  have hhubOut : HubOk pubOf out.hub := hout.hub ▸ hhubD
  exact pair_client hsame hhubOut.pair hhubOut.valid hhubOut.is4 hlisted hkeys haddr hpsk hrow.pair h4

/-- Key pairs for examples. -/
def demoPub (priv : String) : String :=
  if priv = "hubpriv" then "hubpub" else if priv = "priv" then "pub" else "nodepub"

theorem hubOk_demo : HubOk demoPub demoHub := by
  refine ⟨by decide, by decide, by decide, Solid.clean (by decide), by decide, by decide⟩

/-- The panel is started with another interface and the resolver on. -/
def demoRestart : Start :=
  ⟨"", 0, .invalid, ⟨.invalid, 0⟩, "", "secret", "ens3", true, 5353, ⟨"", ""⟩, Rand.script []⟩

theorem later_of_runAll {ops : List Op} (hok : ∀ op ∈ ops, ok op)
    (h : runAll apply Op.body (fun _ _ => true) c ops = some d) : Later ok c d :=
  .single (.calls (stepsIn_of_runAll hok h))

/-- A phone is renamed, and the panel started again. -/
theorem device_file_matches_phone : ∃ (c d : Db) (exp : ClientExport) (out : Snapshot),
    ExportOf c.toTables 1 (.ok exp) ∧ SnapshotOf d.toTables out ∧
    Tunnels demoPub (renderHub out.hub out.nodes out.clients) (renderClient exp.hub exp.client exp.grants) := by
  have hrun : (runAll apply Op.body (fun _ _ => true) (Db.boot demoHub "")
      [.createClient 1 "phone" "" ⟨"priv", "pub"⟩ ""]).any (fun c =>
        (match clientExport c.toTables 1 with
          | .ok exp => decide (clientDNS exp.hub exp.client exp.grants = "")
          | .error _ => false) &&
        (runAll apply Op.body (fun _ _ => true) c [.renameClient 1 "tablet"]).any fun d =>
          d.clients.all ClientRow.enabled) = true := by decide +kernel
  obtain ⟨c, hc, hboth⟩ := (Option.any_eq_true _ _).mp hrun
  obtain ⟨hdns, hafter⟩ := Bool.and_eq_true_iff.mp hboth
  obtain ⟨d, hd, henabled⟩ := (Option.any_eq_true _ _).mp hafter
  have hspec := clientExport_spec c.toTables 1
  cases hexp : clientExport c.toTables 1 with
  | error e => rw [hexp] at hdns; exact absurd hdns (by simp)
  | ok exp =>
    rw [hexp] at hdns hspec
    have hcreate : HandsOut demoPub (.createClient 1 "phone" "" ⟨"priv", "pub"⟩ "") :=
      ⟨@Call.admin _ _ demoFresh (.createClient ⟨"phone", ""⟩) _ _ (by decide : Quiet "phone") rfl
        List.mem_cons_self, (by decide : demoPub "priv" = "pub")⟩
    have hrename : HandsOut demoPub (.renameClient 1 "tablet") := by
      refine ⟨@Call.admin _ _ demoFresh (.updateClient 1 ⟨none, none, some "tablet", none⟩) _ _ ?_ rfl
        List.mem_cons_self, trivial⟩
      exact fun name hname => Option.some.inj hname ▸ (by decide : Quiet "tablet")
    have hbefore : Later (HandsOut demoPub) (Db.boot demoHub "") c :=
      later_of_runAll (List.forall_mem_singleton.mpr hcreate) hc
    have hlater : Later (fun op => HandsOut demoPub op ∧ op ≠ .deleteClient 1) c (d.configure demoRestart) :=
      .tail (later_of_runAll (List.forall_mem_singleton.mpr ⟨hrename, by simp⟩) hd) (.start d demoRestart)
    refine ⟨c, d.configure demoRestart, exp, _, hspec, snapshot_spec _, ?_⟩
    exact device_file_matches hubOk_demo hbefore hspec (of_decide_eq_true hdns ▸ clean_empty) hlater
      (fun r hr _ => List.all_eq_true.mp henabled r hr) (snapshot_spec _)

/-! ### Home servers -/

theorem not_placeholder_of_base64 {s : String} (h : isBase64 s = true) : ¬ Occurs nodePrivatePlaceholder s := by
  refine not_occurs_of_head (x := '_') (by decide) fun hmem => ?_
  have hchar : ('_'.isAlphanum ∨ '_' = '+' ∨ '_' = '/' ∨ '_' = '=' : Bool) = true := List.all_eq_true.mp h '_' hmem
  exact absurd hchar (by decide)

/-- An interface name is too short. -/
theorem not_placeholder_of_iface {s : String} (h : s = "" ∨ validIface s = true) :
    ¬ Occurs nodePrivatePlaceholder s := by
  have hlen : s.toList.length ≤ 15 := by
    rcases h with rfl | h
    · decide
    · exact (of_decide_eq_true h).2.1
  intro hoccurs
  have hle : nodePrivatePlaceholder.toList.length ≤ s.toList.length := hoccurs.length_le
  have hplace : nodePrivatePlaceholder.toList.length = 33 := by decide +kernel
  omega

/-- An interface name is one line. -/
theorem oneLine_of_iface {s : String} (h : s = "" ∨ validIface s = true) : OneLine s := by
  rcases h with rfl | h
  · decide
  · exact oneLine_of_clean (word_of_validIface h).solid.clean

/-- What the export of a node is made from. -/
theorem export_eq {t : Tables} {n : NodeRow} {reach reach' : List Prefix} {hub : Hub} {node : Node}
    (wf : t.Constraints) (hn : n ∈ t.nodes) (h : NodeAgent.getNodeForExport t n.id reach = .ok (hub, node, reach')) :
    hub = t.hub ∧ reach' = reach ∧ ∃ a, n.address = some a ∧
      node = ⟨n.name, a, t.subnetsOf n.id, n.keys, n.lanIface, n.preshared, false, "", []⟩ := by
  unfold NodeAgent.getNodeForExport at h
  split at h
  · cases h
  · rename_i m hm
    have hid := List.find?_some hm
    obtain rfl := node_eq_of_id wf (List.mem_of_find?_eq_some hm) hn (of_decide_eq_true hid)
    split at h
    · cases h
    · rename_i a ha
      obtain ⟨rfl, hrest⟩ := Prod.mk.inj (Except.ok.inj h)
      obtain ⟨rfl, rfl⟩ := Prod.mk.inj hrest
      exact ⟨rfl, rfl, a, ha, rfl⟩

/-- **A home server's file keeps working**: the one of any moment, with the key that the panel drew for it or with the
    agent's own in the place holder, and the hub's file of any later moment make a tunnel while the node has been
    neither rejected nor deleted. -/
theorem node_file_matches {pubOf : String → String} {hub : Hub} {secret : String} {c d : Db} {n : NodeRow}
    {reach reach' : List Prefix} {hub' : Hub} {node : Node} {out : Snapshot} (hhub : HubOk pubOf hub)
    (hendpoint : ¬ Occurs nodePrivatePlaceholder hub.endpoint)
    (hbefore : Later (HandsOut pubOf) (Db.boot hub secret) c) (hn : n ∈ c.nodes) (hactive : n.status = .active)
    (hsite : n.isHub = false) (hexp : NodeAgent.getNodeForExport c.toTables n.id reach = .ok (hub', node, reach'))
    (hafter : Later (fun op => HandsOut pubOf op ∧ LeavesIn n.id op) c d) (hout : SnapshotOf d.toTables out) :
    (n.keys.priv ≠ "" → Tunnels pubOf (renderHub out.hub out.nodes out.clients) (renderNode hub' node reach')) ∧
    ∀ priv, n.keys.priv = "" → priv ≠ "" → Clean priv → pubOf priv = n.keys.pub →
      Tunnels pubOf (renderHub out.hub out.nodes out.clients) (fullConfig (renderNode hub' node reach') priv) := by
  have hc := later_printable hbefore (printable_boot secret hhub)
  have hd := later_printable (hafter.mono fun _ hop => hop.1) hc
  have hhubC : HubOk pubOf c.hub := hubOk_of_same hhub (later_hub hbefore)
  have hhubD : HubOk pubOf d.hub := hubOk_of_same hhubC (later_hub hafter)
  obtain ⟨rfl, rfl, a, ha, rfl⟩ := export_eq c.wf hn hexp
  have hrow := hc.rows.2 n hn
  have htexts : HubTexts c.hub := ⟨clean_of_base64 hhubC.pub, hhubC.endpoint⟩
  have h4 : a.is4 = true := by
    rcases hc.addresses.node_host n hn a ha with hhost | ⟨hisHub, -⟩
    · obtain ⟨y, hy⟩ := v4_of_contains hhubC.pool hhost.inPool
      rw [hy]
      rfl
    · exact absurd (hsite.symm.trans hisHub) (by simp)
  -- the row is still there and live, so the hub's file lists it
  obtain ⟨m, hm, hstays⟩ := site_stays hafter hn hactive (by simp [ha])
  have hlive : m ∈ d.liveNodes :=
    List.mem_filter.mpr ⟨hm, decide_eq_true ⟨hstays.active, by simp [hstays.address, ha]⟩⟩
  obtain ⟨m', hm', -, he⟩ := hout.live hlive
  have hsame : SameHub out.hub c.hub := hout.hub ▸ later_hub hafter
  have hhubOut : HubOk pubOf out.hub := hout.hub ▸ hhubD
  have hpair : ∀ priv, priv ≠ "" → Clean priv → pubOf priv = n.keys.pub →
      Tunnels pubOf (renderHub out.hub out.nodes out.clients) (renderNode c.hub
        ⟨n.name, a, c.subnetsOf n.id, ⟨priv, n.keys.pub⟩, n.lanIface, n.preshared, false, "", []⟩ reach') := by
    intro priv hne hpriv hpub
    refine ⟨_, _, hd.hubFile hout, read_renderNode htexts ⟨hpriv, clean_of_base64 hrow.preshared,
      oneLine_of_iface hrow.iface⟩ reach', ?_⟩
    have hmHub : m'.isHub = false := by rw [he]; exact hstays.isHub.trans hsite
    have hmPub : m'.keys.pub = n.keys.pub := by rw [he]; exact congrArg Keypair.pub hstays.keys
    have hmAddr : m'.address = a := by
      rw [he]
      exact (congrArg (·.getD .invalid) (hstays.address.trans ha) : _)
    have hmPsk : m'.preshared = n.preshared := by rw [he]; exact hstays.preshared
    exact pair_node hsame hhubOut.pair hhubOut.valid hhubOut.address hm' hmHub hmPub hmAddr hmPsk hne hpub h4
  refine ⟨fun hne => hpair n.keys.priv hne (clean_of_base64 hrow.priv) (hrow.pair hne), ?_⟩
  intro priv hempty hne hpriv hpub
  have hkeys : n.keys = ⟨"", n.keys.pub⟩ := by rw [← hempty]
  -- the place holder stands for the key, and nowhere else
  have hfull : fullConfig (renderNode c.hub
      ⟨n.name, a, c.subnetsOf n.id, ⟨"", n.keys.pub⟩, n.lanIface, n.preshared, false, "", []⟩ reach') priv =
      renderNode c.hub
        ⟨n.name, a, c.subnetsOf n.id, ⟨priv, n.keys.pub⟩, n.lanIface, n.preshared, false, "", []⟩ reach' := by
    have hsplit := renderNode_split c.hub
      ⟨n.name, a, c.subnetsOf n.id, n.keys, n.lanIface, n.preshared, false, "", []⟩ reach'
    rw [hsplit "", hsplit priv, if_pos rfl, if_neg hne]
    exact replaceAll_once (by decide) (keyClear_head _) (keyClear_tail
      ((later_hub hbefore).endpoint ▸ hendpoint) (not_placeholder_of_base64 hhubC.pub)
      (not_placeholder_of_base64 hrow.preshared) (not_placeholder_of_iface hrow.iface) reach') priv
  rw [hkeys, hfull]
  exact hpair priv hne hpriv hpub

/-- A home server that enrolled and was approved; then it is renamed, and the panel started again. -/
theorem node_file_matches_home : ∃ (c d : Db) (n : NodeRow) (hub : Hub) (node : Node) (out : Snapshot),
    NodeAgent.getNodeForExport c.toTables n.id [] = .ok (hub, node, []) ∧ SnapshotOf d.toTables out ∧ n.keys.priv = "" ∧
    Tunnels demoPub (renderHub out.hub out.nodes out.clients) (fullConfig (renderNode hub node []) "nodepriv") := by
  have hrun : (runAll apply Op.body (fun _ _ => true) (Db.boot demoHub "")
      [.ensureHubNode 0, announced "home", .approveNode 1]).any (fun c =>
        (c.nodes.find? fun n => n.id = 1).any (fun n => decide (n.status = .active ∧ n.isHub = false ∧
          n.keys = ⟨"", "nodepub"⟩ ∧ n.id = 1 ∧ n.address ≠ none)) &&
        (runAll apply Op.body (fun _ _ => true) c [.renameNode 1 "house"]).isSome) = true := by decide +kernel
  obtain ⟨c, hc, hboth⟩ := (Option.any_eq_true _ _).mp hrun
  obtain ⟨hrow, hafter⟩ := Bool.and_eq_true_iff.mp hboth
  obtain ⟨n, hn, hcols⟩ := (Option.any_eq_true _ _).mp hrow
  obtain ⟨hactive, hsite, hkeys, hid, haddr⟩ := of_decide_eq_true hcols
  obtain ⟨d, hd⟩ := Option.isSome_iff_exists.mp hafter
  have hcalls : ∀ op ∈ [Op.ensureHubNode 0, announced "home", .approveNode 1], HandsOut demoPub op := by
    have hstart : ∀ i op, Event.start i op ∈ announceRun "home" → HandsOut demoPub op := fun i op hop => by
      refine ⟨announceRun_calls trivial ⟨(by decide : Quiet "home"), (Solid.clean (by decide) : Clean "nodepub")⟩
        (by decide) i op hop, ?_⟩
      have hops : op = .ensureHubNode 0 ∨ op = announced "home" ∨ op = .approveNode 1 := by
        simp [announceRun] at hop
        tauto
      rcases hops with rfl | rfl | rfl <;> trivial
    simp only [List.forall_mem_cons]
    exact ⟨hstart 0 _ (by simp [announceRun]), hstart 0 _ (by simp [announceRun]), hstart 0 _ (by simp [announceRun]),
      fun _ h => absurd h List.not_mem_nil⟩
  have hrename : HandsOut demoPub (.renameNode 1 "house") := by
    refine ⟨@Call.admin _ _ demoFresh (.updateNode 1 ⟨none, none, some "house", none⟩) _ _ ?_ rfl
      List.mem_cons_self, trivial⟩
    exact fun name hname => Option.some.inj hname ▸ (by decide : Quiet "house")
  have hbefore : Later (HandsOut demoPub) (Db.boot demoHub "") c := later_of_runAll hcalls hc
  -- after the export the node is renamed and the panel starts again
  have hlater : Later (fun op => HandsOut demoPub op ∧ LeavesIn n.id op) c (d.configure demoRestart) :=
    .tail (later_of_runAll (List.forall_mem_singleton.mpr ⟨hrename, by simp [LeavesIn]⟩) hd) (.start d demoRestart)
  have hmem := List.mem_of_find?_eq_some hn
  obtain ⟨a, ha⟩ := Option.ne_none_iff_exists'.mp haddr
  have hexp : NodeAgent.getNodeForExport c.toTables n.id [] = .ok (c.hub,
      ⟨n.name, a, c.subnetsOf n.id, n.keys, n.lanIface, n.preshared, false, "", []⟩, []) := by
    unfold NodeAgent.getNodeForExport
    rw [hid, hn]
    simp only [ha]
  refine ⟨c, d.configure demoRestart, n, _, _, _, hexp, snapshot_spec _, by rw [hkeys], ?_⟩
  exact (node_file_matches hubOk_demo (by decide +kernel) hbefore hmem hactive hsite hexp hlater (snapshot_spec _)).2
    "nodepriv" (by rw [hkeys]) (by decide) (Solid.clean (by decide)) (by rw [hkeys]; decide)

end Api
end BeautyAwg
