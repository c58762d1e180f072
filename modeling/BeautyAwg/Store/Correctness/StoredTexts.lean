import BeautyAwg.Api.Handlers
import BeautyAwg.Awg.Correctness.FilePeers
import BeautyAwg.Store.Snapshot

/-!
# `Store.Correctness.StoredTexts`: what the stored texts can do to the hub's file

`RenderHub` writes a peer's name, public key and preshared key as they are stored. Calls that store texts which stay in
their line keep all stored texts so (`storedTexts_of_steps`), and then the printed file, read back, has the peers of
`hubPeers` and no others (`file_peers`).

## Contents
- **Texts.** `StoredTexts`; `OpTexts`: the texts a call stores.
- **Invariant.** `WriteTexts`, `storedTexts_apply`, `storedTexts_of_steps`.
- **The file.** `StoredTexts.node`, `StoredTexts.client`, `file_peers`.
-/

namespace BeautyAwg
namespace Store

open Netip Awg Txn QuickConf

/-! ## Texts -/

/-- No text that the hub's file prints leaves its line. -/
structure StoredTexts (t : Tables) : Prop where
  hub : Clean t.hub.keys.priv
  nodes : ∀ n ∈ t.nodes, PeerTexts n.name n.keys.pub n.preshared
  clients : ∀ c ∈ t.clients, PeerTexts c.name c.keys.pub c.preshared

/-- The texts that a call stores stay in their line. -/
def OpTexts : Op → Prop
  | .createNode _ name _ _ keys psk => PeerTexts name keys.pub psk
  | .createClient _ name _ keys psk => PeerTexts name keys.pub psk
  | .enrollNode _ _ name _ _ pubkey _ _ => PeerTexts name pubkey ""
  | .renameNode _ name => Quiet name
  | .renameClient _ name => Quiet name
  | _ => True

theorem clean_of_base64 {s : String} (h : Api.isBase64 s = true) : Clean s := by
  refine Solid.clean fun c hc => ?_
  have hchar : (c.isAlphanum ∨ c = '+' ∨ c = '/' ∨ c = '=' : Bool) = true := List.all_eq_true.mp h c hc
  have hne : ∀ d : Char, (d.isAlphanum ∨ d = '+' ∨ d = '/' ∨ d = '=' : Bool) = false → c ≠ d := by
    rintro d hd rfl
    exact absurd (hchar.symm.trans hd) (by decide)
  refine ⟨?_, hne '\n' (by decide), hne '#' (by decide)⟩
  simp [QuickConf.isSpace, hne ' ' (by decide), hne '\t' (by decide), hne '\r' (by decide),
    hne '\x0b' (by decide), hne '\x0c' (by decide)]

theorem clean_empty : Clean "" := ⟨by simp, by simp, by simp, by simp⟩

/-! ## Invariant -/

/-- The texts of a node that the hub's file prints stay in their line. -/
def NodeTexts (n : NodeRow) : Prop := PeerTexts n.name n.keys.pub n.preshared

/-- The texts of a client that the hub's file prints stay in their line. -/
def ClientTexts (c : ClientRow) : Prop := PeerTexts c.name c.keys.pub c.preshared

/-- A write that stores clean texts, or leaves them alone. -/
def WriteTexts : Write → Prop
  | .insertNode r => NodeTexts r
  | .updateNode _ f => ∀ r, NodeTexts r → NodeTexts (f r)
  | .insertClient r => ClientTexts r
  | .updateClient _ f => ∀ r, ClientTexts r → ClientTexts (f r)
  | _ => True

theorem writeTexts_of_opTexts {op : Op} {w : Write} (h : OpTexts op) (hw : op.Writes w) : WriteTexts w := by
  cases hw with
  | createNode a => exact h
  | createClient a => exact h
  | enrollNode => exact h
  | ensureHubNode a =>
    have hname : Quiet "panel (internet exit)" := by decide
    exact ⟨hname, clean_empty, clean_empty⟩
  | renameNode => exact fun r hr => ⟨h, hr.pub, hr.preshared⟩
  | renameClient => exact fun r hr => ⟨h, hr.pub, hr.preshared⟩
  | enrollNode_known known token => exact fun r hr => hr
  | approveNode a => exact fun r hr => hr
  | rejectNode => exact fun r hr => hr
  | setNodeDNS => exact fun r hr => hr
  | setNodeColor => exact fun r hr => hr
  | updateClient => exact fun r hr => hr
  | setClientColor => exact fun r hr => hr
  | _ => trivial

/-- Such a write keeps the invariant. -/
theorem storedTexts_apply {w : Write} {c c' : Db} (hw : WriteTexts w) (happly : apply w c = .ok c')
    (h : StoredTexts c.toTables) : StoredTexts c'.toTables := by
  rw [← apply_eq_ok.mp happly]
  obtain ⟨hhub, hnodes, hclients⟩ := h
  cases w with
  | insertNode r =>
    exact ⟨hhub, fun n hn => (List.mem_append.mp hn).elim (hnodes n) fun h => List.mem_singleton.mp h ▸ hw,
      hclients⟩
  | insertClient r =>
    exact ⟨hhub, hnodes,
      fun c hc => (List.mem_append.mp hc).elim (hclients c) fun h => List.mem_singleton.mp h ▸ hw⟩
  | updateNode id f =>
    refine ⟨hhub, fun n hn => ?_, hclients⟩
    obtain ⟨r, hr, rfl⟩ := List.mem_map.mp hn
    split
    · exact hw r (hnodes r hr)
    · exact hnodes r hr
  | updateClient id f =>
    refine ⟨hhub, hnodes, fun c hc => ?_⟩
    obtain ⟨r, hr, rfl⟩ := List.mem_map.mp hc
    split
    · exact hw r (hclients r hr)
    · exact hclients r hr
  | deleteNode id => exact ⟨hhub, fun n hn => hnodes n (List.mem_filter.mp hn).1, hclients⟩
  | deleteClient id => exact ⟨hhub, hnodes, fun c hc => hclients c (List.mem_filter.mp hc).1⟩
  | _ => exact ⟨hhub, hnodes, hclients⟩

variable {hub : Hub} {secret : String} {t : Tables} {s : Sys Op Db Write Lock StoreErr} {out : Snapshot}

theorem storedTexts_boot (secret : String) (hpriv : Clean hub.keys.priv) :
    StoredTexts (Db.boot hub secret).toTables :=
  ⟨hpriv, by simp [Db.boot], by simp [Db.boot]⟩

/-- **Run.** Calls with such texts keep the invariant, however they overlap. -/
theorem storedTexts_of_steps {c : Db} (hc : StoredTexts c.toTables)
    (h : StepsIn apply Op.body (OpsIn OpTexts) (Sys.idle c) s) : StoredTexts s.committed.toTables :=
  good_of_writes (I := fun c : Db => StoredTexts c.toTables) body_allWrites
    (fun _ _ _ _ hop hw => storedTexts_apply (writeTexts_of_opTexts hop hw)) hc h

/-! ## The file -/

/-- What a snapshot has of a node are texts of its row. -/
theorem StoredTexts.node (h : StoredTexts t) (hout : SnapshotOf t out) :
    ∀ n ∈ out.nodes, n.isHub = false → PeerTexts n.name n.keys.pub n.preshared := by
  intro n hn _
  obtain ⟨r, hr, -, he⟩ := hout.node hn
  rw [he]
  exact h.nodes r (List.mem_filter.mp hr).1

theorem StoredTexts.client (h : StoredTexts t) (hout : SnapshotOf t out) :
    ∀ c ∈ out.clients, PeerTexts c.name c.keys.pub c.preshared := by
  intro c hc
  obtain ⟨r, hr, -, rfl⟩ := hout.client hc
  exact h.clients r hr

/-- The file reads back. -/
theorem StoredTexts.read (h : StoredTexts t) (hout : SnapshotOf t out) :
    Tunnel.read (renderHub out.hub out.nodes out.clients) = some (hubEnd out.hub out.nodes out.clients) :=
  read_renderHub (hout.hub ▸ h.hub) (h.node hout) (h.client hout)

/-- The peers of the file printed from a snapshot. -/
def Snapshot.filePeers (out : Snapshot) : Option (List HubPeer) :=
  Awg.filePeers (renderHub out.hub out.nodes out.clients)

theorem StoredTexts.filePeers (h : StoredTexts t) (hout : SnapshotOf t out) :
    out.filePeers = some (hubPeers out.nodes out.clients) :=
  filePeers_renderHub (hout.hub ▸ h.hub) (h.node hout) (h.client hout)

/-- **The file's peers.** In every state that calls with such texts lead to, the file printed from any snapshot has the
    peers of `hubPeers`. -/
theorem file_peers (hpriv : Clean hub.keys.priv)
    (h : StepsIn apply Op.body (OpsIn OpTexts) (Sys.idle (Db.boot hub secret)) s)
    (hout : SnapshotOf s.committed.toTables out) : out.filePeers = some (hubPeers out.nodes out.clients) :=
  (storedTexts_of_steps (storedTexts_boot secret hpriv) h).filePeers hout

end Store
end BeautyAwg
