import BeautyAwg.Store.Correctness.Links
import BeautyAwg.Store.Correctness.StoredTexts

/-!
# `Store.Correctness.Cryptokey`: whose address is it

The hub's interface sends an address to the peer whose `AllowedIPs` contain it. `Tables.routes` lists what
each peer is given there. A call can only add what `Op.gains` lists (`routes_of_effect`), so a property of
the routes holds in every state reached if it holds of what the calls of the run add. Two such properties:
no two peers share an address, and no peer has the default route. The store checks neither.

## Contents
- **Routes.** `Route`, `Tables.routes`, `Op.gains`, `routes_of_effect`.
- **Printed routes.** What a peer of `RenderHub` owns it has a route for.
- **Apart.** `Clash`, `RoutesApart`, `peers_apart`, and `createNode_takes_lan`.
- **Default route.** `NoDefaultRoute`, `no_default_route`, and `createNode_takes_default`.
-/

namespace BeautyAwg
namespace Store

open Netip Awg Txn QuickConf

variable {hub : Hub} {db : Db} {t t' : Tables} {op : Op} {out : Snapshot}

/-! ## Routes -/

/-- A prefix in the `AllowedIPs` of a peer. `lan` tells a node's subnet from a tunnel address. -/
structure Route where
  owner : Uuid ⊕ Uuid
  lan : Bool
  dest : Prefix
  deriving DecidableEq, Repr

/-- The peer's own tunnel address. -/
def hostRoute (owner : Uuid ⊕ Uuid) (a : Addr) : Route := ⟨owner, false, .host a⟩

/-- The routes to a node's subnets. -/
def lanRoutes (id : Uuid) (lans : List Prefix) : List Route := lans.map fun s => ⟨.inl id, true, s⟩

/-- The node is a peer of the hub's interface. -/
def NodeRow.peered (n : NodeRow) : Bool := n.status = .active ∧ n.address ≠ none ∧ n.isHub = false

/-- A node's tunnel address and its subnets. -/
def Tables.nodeRoutes (t : Tables) (n : NodeRow) : List Route :=
  hostRoute (.inl n.id) (n.address.getD .invalid) :: lanRoutes n.id (t.subnetsOf n.id)

/-- What the hub's peers own, by the rows: the nodes that are peers, and the enabled clients. -/
def Tables.routes (t : Tables) : List Route :=
  (t.nodes.filter NodeRow.peered).flatMap t.nodeRoutes ++
    t.enabledClients.map fun c => hostRoute (.inr c.id) c.address

/-- The routes a call can add. -/
def Op.gains (op : Op) (t : Tables) : List Route :=
  match op with
  | .createNode id _ _ subnets _ _ =>
    t.nextAddress.toList.map (hostRoute (.inl id)) ++ lanRoutes id subnets
  | .createClient id _ _ _ _ => t.nextAddress.toList.map (hostRoute (.inr id))
  | .enrollNode _ _ _ _ _ pubkey subnets pick =>
    match anyRow pick (t.nodes.filter fun n => n.keys.pub = pubkey) with
    | some r => if r.peered then lanRoutes r.id subnets else []
    | none => []
  | .approveNode id =>
    match t.nodes.find? fun n => n.id = id with
    | some r =>
      if r.isHub ∨ (r.status = .active ∧ r.address ≠ none) then []
      else t.nextAddress.toList.map (hostRoute (.inl id)) ++ lanRoutes id (t.subnetsOf id)
    | none => []
  | .updateClient id true _ =>
    (t.clients.filter fun c => c.id = id).map fun c => hostRoute (.inr c.id) c.address
  | _ => []

/-- The routes of the tables: those of peered nodes and of enabled devices. -/
theorem mem_routes {x : Route} : x ∈ t.routes ↔
    (∃ n ∈ t.nodes, n.peered = true ∧ x ∈ t.nodeRoutes n) ∨
      ∃ c ∈ t.clients, c.enabled = true ∧ x = hostRoute (.inr c.id) c.address := by
  simp only [Tables.routes, Tables.enabledClients, List.mem_append, List.mem_flatMap, List.mem_map,
    List.mem_filter, and_assoc, eq_comm]

/-- The routes of a call are all to one peer. -/
theorem gains_owner {x y : Route} (hx : x ∈ op.gains t) (hy : y ∈ op.gains t) : x.owner = y.owner := by
  -- a call gains routes for one node or one device
  have key : ∃ o, ∀ z ∈ op.gains t, z.owner = o := by
    have hlans : ∀ {id lans}, ∀ z ∈ lanRoutes id lans, z.owner = .inl id := by
      intro id lans z hz
      obtain ⟨s, -, rfl⟩ := List.mem_map.mp hz
      rfl
    have hhost : ∀ {o} {a : Option Addr}, ∀ z ∈ a.toList.map (hostRoute o), z.owner = o := by
      intro o a z hz
      obtain ⟨s, -, rfl⟩ := List.mem_map.mp hz
      rfl
    unfold Op.gains
    split
    · exact ⟨_, fun z hz => (List.mem_append.mp hz).elim (hhost z) (hlans z)⟩
    · exact ⟨_, hhost⟩
    · split
      · split
        · exact ⟨_, hlans⟩
        · exact ⟨.inl 0, fun z hz => absurd hz List.not_mem_nil⟩
      · exact ⟨.inl 0, fun z hz => absurd hz List.not_mem_nil⟩
    · split
      · split
        · exact ⟨.inl 0, fun z hz => absurd hz List.not_mem_nil⟩
        · exact ⟨_, fun z hz => (List.mem_append.mp hz).elim (hhost z) (hlans z)⟩
      · exact ⟨.inl 0, fun z hz => absurd hz List.not_mem_nil⟩
    · rename_i id _
      refine ⟨.inr id, fun z hz => ?_⟩
      obtain ⟨c, hc, rfl⟩ := List.mem_map.mp hz
      rw [← of_decide_eq_true (List.mem_filter.mp hc).2]
      rfl
    · exact ⟨.inl 0, fun z hz => absurd hz List.not_mem_nil⟩
  obtain ⟨o, ho⟩ := key
  rw [ho x hx, ho y hy]

section Gains

variable {G : List Route}

/-- The routes of a state come from its peered nodes and its enabled clients. -/
theorem routes_from
    (hnodes : ∀ n' ∈ t'.nodes, n'.peered = true → ∀ x ∈ t'.nodeRoutes n', x ∈ t.routes ∨ x ∈ G)
    (hclients : ∀ c' ∈ t'.clients, c'.enabled = true →
      hostRoute (.inr c'.id) c'.address ∈ t.routes ∨ hostRoute (.inr c'.id) c'.address ∈ G) :
    ∀ x ∈ t'.routes, x ∈ t.routes ∨ x ∈ G := by
  intro x hx
  rcases mem_routes.mp hx with ⟨n, hn, hpeer, hxn⟩ | ⟨c, hc, henabled, rfl⟩
  · exact hnodes n hn hpeer x hxn
  · exact hclients c hc henabled

/-- A peered node that keeps its address and gets no new subnet keeps its routes. -/
theorem node_kept {n n' : NodeRow} (hn : n ∈ t.nodes) (hpeer : n.peered = true) (hid : n'.id = n.id)
    (haddr : n'.address = n.address) (hsub : ∀ s ∈ t'.subnetsOf n.id, s ∈ t.subnetsOf n.id) :
    ∀ x ∈ t'.nodeRoutes n', x ∈ t.routes ∨ x ∈ G := by
  intro x hx
  refine Or.inl (mem_routes.mpr (Or.inl ⟨n, hn, hpeer, ?_⟩))
  simp only [Tables.nodeRoutes, lanRoutes, hid, haddr, List.mem_cons, List.mem_map] at hx ⊢
  exact hx.imp_right fun ⟨s, hs, he⟩ => ⟨s, hsub s hs, he⟩

theorem client_kept {c : ClientRow} (hc : c ∈ t.clients) (henabled : c.enabled = true) :
    hostRoute (.inr c.id) c.address ∈ t.routes ∨ hostRoute (.inr c.id) c.address ∈ G :=
  Or.inl (mem_routes.mpr (Or.inr ⟨c, hc, henabled, rfl⟩))

/-- A new node's row comes with subnets of its own only. -/
theorem routes_added {n : NodeRow} (lans : List Prefix) (hnodes : t'.nodes = t.nodes ++ [n])
    (hsub : t'.subnets = t.subnets ++ lans.map (SubnetRow.mk n.id)) (hclients : t'.clients = t.clients)
    (wf : t.Constraints) (wf' : t'.Constraints)
    (hnew : n.peered = true → ∀ x, x ∈ hostRoute (.inl n.id) (n.address.getD .invalid) :: lanRoutes n.id lans →
      x ∈ G) : ∀ x ∈ t'.routes, x ∈ t.routes ∨ x ∈ G := by
  have hnodup := wf'.nodes_pkey
  rw [hnodes] at hnodup
  refine routes_from (fun m hm hpeer => ?_) fun c hc henabled => client_kept (hclients ▸ hc) henabled
  rw [hnodes] at hm
  rcases List.mem_append.mp hm with hm | hm
  · refine node_kept hm hpeer rfl rfl fun s hs => ?_
    rwa [subnetsOf_added hsub, if_neg (nodup_append_ne hnodup hm), List.append_nil] at hs
  · obtain rfl := List.mem_singleton.mp hm
    -- a subnet under the new id would have had no node
    have hnone : t.subnetsOf m.id = [] := by
      refine List.map_eq_nil_iff.mpr (List.filter_eq_nil_iff.mpr fun s hs he => ?_)
      obtain ⟨k, hk, hkid⟩ := List.mem_map.mp (wf.subnets_node_fkey s hs)
      exact nodup_append_ne hnodup hk (hkid.trans (of_decide_eq_true he))
    intro x hx
    rw [Tables.nodeRoutes, subnetsOf_added hsub, if_pos rfl, hnone, List.nil_append] at hx
    exact Or.inr (hnew hpeer x hx)

/-- An edit of one node's row: the routes of that node, and those there were. -/
theorem routes_edited {id : Uuid} {f : NodeRow → NodeRow} (hnodes : t'.nodes = (t.editNode id f).nodes)
    (hclients : t'.clients = t.clients)
    (hsub : ∀ i, i ≠ id → ∀ s ∈ t'.subnetsOf i, s ∈ t.subnetsOf i)
    (hedit : ∀ n ∈ t.nodes, n.id = id → (f n).peered = true → ∀ x ∈ t'.nodeRoutes (f n), x ∈ t.routes ∨ x ∈ G) :
    ∀ x ∈ t'.routes, x ∈ t.routes ∨ x ∈ G := by
  refine routes_from (fun m hm hpeer => ?_) fun c hc henabled => client_kept (hclients ▸ hc) henabled
  rw [hnodes] at hm
  obtain ⟨n, hn, rfl⟩ := List.mem_map.mp hm
  split at hpeer
  · rename_i hid
    rw [if_pos hid]
    exact hedit n hn hid hpeer
  · rename_i hid
    rw [if_neg hid]
    exact node_kept hn hpeer rfl rfl (hsub n.id hid)

/-- An edit of a client's row that keeps the address. -/
theorem routes_editedClient {id : Uuid} {f : ClientRow → ClientRow}
    (hf : ∀ c ∈ t.clients, c.id = id → (f c).enabled = true →
      hostRoute (.inr (f c).id) (f c).address ∈ t.routes ∨ hostRoute (.inr (f c).id) (f c).address ∈ G) :
    ∀ x ∈ (t.editClient id f).routes, x ∈ t.routes ∨ x ∈ G := by
  refine routes_from (fun n hn hpeer => node_kept hn hpeer rfl rfl fun _ hs => hs) fun c' hc' henabled => ?_
  obtain ⟨c, hc, rfl⟩ := List.mem_map.mp hc'
  split at henabled
  · rename_i hid
    rw [if_pos hid]
    exact hf c hc hid henabled
  · rename_i hid
    rw [if_neg hid]
    exact client_kept hc henabled

end Gains

/-- **Step.** The routes after a call were there before or are among those the call adds. -/
theorem routes_of_effect (wf : t.Constraints) (wf' : t'.Constraints) (h : Effect op t t') :
    ∀ x ∈ t'.routes, x ∈ t.routes ∨ x ∈ op.gains t := by
  cases h with
  | createNode ha =>
    refine routes_added _ rfl rfl rfl wf wf' fun _ x hx => ?_
    simpa [Op.gains, ha, createdNode] using hx
  | createClient ha =>
    refine routes_from (fun n hn hpeer => node_kept hn hpeer rfl rfl fun _ hs => hs) fun c hc henabled => ?_
    rcases List.mem_append.mp hc with hc | hc
    · exact client_kept hc henabled
    · obtain rfl := List.mem_singleton.mp hc
      exact Or.inr (by simp [Op.gains, ha, createdClient])
  | @reenrolled _ _ newToken _ hostname lanIface pubkey lans pick r hr =>
    refine routes_edited rfl rfl (fun i hi s hs => ?_) fun n hn hid hpeer x hx => ?_
    · rwa [subnetsOf_replaced (t := t) rfl, if_neg fun h => hi h.1] at hs
    · obtain rfl := node_eq_of_id wf hn (anyRow_filter hr).1 hid
      have hold : n.peered = true := by
        obtain ⟨hactive, hrest⟩ := of_decide_eq_true hpeer
        exact decide_eq_true ⟨active_of_announce hactive, hrest⟩
      have hroutes : ∀ y ∈ t.nodeRoutes n, y ∈ t.routes := fun y hy =>
        mem_routes.mpr (Or.inl ⟨n, hn, hold, hy⟩)
      rcases List.mem_cons.mp hx with rfl | hx
      · exact Or.inl (hroutes _ List.mem_cons_self)
      · replace hx : x ∈ lanRoutes n.id (Tables.subnetsOf _ n.id) := hx
        rw [subnetsOf_replaced (t := t) rfl] at hx
        split at hx
        · right
          simpa only [Op.gains, hr, hold, if_true] using hx
        · exact Or.inl (hroutes x (List.mem_cons_of_mem _ hx))
  | registered =>
    exact routes_added _ rfl rfl rfl wf wf' fun hpeer => absurd hpeer (by simp [NodeRow.peered, enrolledNode])
  | @approved _ id r a hr hnot ha =>
    refine routes_edited rfl rfl (fun _ _ _ hs => hs) fun n hn hid hpeer x hx => Or.inr ?_
    have hrid : r.id = id := by simpa using List.find?_some hr
    obtain rfl := node_eq_of_id wf hn (List.mem_of_find?_eq_some hr) (hid.trans hrid.symm)
    have hhub : n.isHub = false := (of_decide_eq_true hpeer).2.2
    subst hid
    simp only [Op.gains, hr, ha, hhub, hnot, Bool.false_eq_true, or_self, if_false]
    exact hx
  | rejected =>
    refine routes_edited rfl rfl (fun _ _ _ hs => hs) fun n _ _ hpeer => ?_
    exact absurd (of_decide_eq_true hpeer).1 (by simp [reject])
  | deletedNode =>
    refine routes_from (fun n hn hpeer => ?_) fun c hc henabled => client_kept hc henabled
    refine node_kept (List.mem_filter.mp hn).1 hpeer rfl rfl fun s hs => ?_
    rw [subnetsOf_dropped rfl] at hs
    split at hs
    · exact absurd hs List.not_mem_nil
    · exact hs
  | hubCreated =>
    exact routes_added [_] rfl rfl rfl wf wf' fun hpeer => absurd hpeer (by simp [NodeRow.peered, hubNode])
  | renamedNode | nodeDNS | nodeColor =>
    exact routes_edited rfl rfl (fun _ _ _ hs => hs) fun n hn _ hpeer => node_kept hn hpeer rfl rfl fun _ hs => hs
  | deletedClient =>
    exact routes_from (fun n hn hpeer => node_kept hn hpeer rfl rfl fun _ hs => hs) fun c hc henabled =>
      client_kept (List.mem_filter.mp hc).1 henabled
  | updatedClient =>
    refine routes_editedClient fun c hc hid henabled => Or.inr ?_
    obtain rfl : _ = true := henabled
    exact List.mem_map.mpr ⟨c, List.mem_filter.mpr ⟨hc, decide_eq_true hid⟩, rfl⟩
  | renamedClient | clientColor => exact routes_editedClient fun c hc _ henabled => client_kept (c := c) hc henabled
  | _ => exact fun x hx => Or.inl hx

/-- What holds of every route that the calls of a run add holds of every route there is. -/
theorem routes_of_calls {secret : String} {P : Route → Prop} {ok : Op → Db → Prop}
    (hok : ∀ op c, ok op c → ∀ x ∈ op.gains c.toTables, P x)
    (hcalls : Calls apply Op.body ok (Db.boot hub secret) db) : ∀ x ∈ db.routes, P x := by
  refine effect_induction (I := fun t => ∀ x ∈ t.routes, P x) (fun op c t' hop h wf' ih x hx => ?_) hcalls
    fun x hx => absurd hx List.not_mem_nil
  exact (routes_of_effect c.wf wf' h x hx).elim (ih x) (hok op c hop x)

/-! ## Printed routes -/

/-- Different rows of a listing have different ids. -/
theorem NodesRead.nodup_keys {nodes : List (Uuid × Node)} (wf : t.Constraints) (h : NodesRead t nodes) :
    (nodes.map Prod.fst).Nodup := by
  obtain ⟨-, subnets, domains, -, -, hperm⟩ := h
  rw [(hperm.map Prod.fst).nodup_iff, List.map_map]
  exact wf.nodes_pkey.sublist (List.filter_sublist.map NodeRow.id)

/-- A device is read once. -/
theorem ClientsRead.nodup_keys {clients : List (Uuid × Client)} (wf : t.Constraints) (h : ClientsRead t clients) :
    (clients.map Prod.fst).Nodup := by
  rw [(h.2.map Prod.fst).nodup_iff, List.map_map]
  exact wf.clients_pkey.sublist (List.filter_sublist.map ClientRow.id)

/-- A prefix a peer's line lists: one of the routes of its owner. -/
def ListedFor (t : Tables) (owner : Uuid ⊕ Uuid) (s : String) : Prop :=
  ∃ x ∈ t.routes, x.owner = owner ∧ ∀ q, parsePrefix s = some q → q = x.dest

/-- What a peer of a node is allowed is listed for that node. -/
theorem node_listed {nodes : List (Uuid × Node)} (h : NodesRead t nodes) {id : Uuid} {n : Node}
    (hn : (id, n) ∈ nodes) (hhub : n.isHub = false) : ∀ s ∈ n.peer.allowed, ListedFor t (.inl id) s := by
  obtain ⟨r, hr, rfl, hsub, he⟩ := h.row hn
  obtain ⟨hrn, hlive⟩ := List.mem_filter.mp hr
  obtain ⟨hactive, hsome⟩ := of_decide_eq_true hlive
  have hpeer : r.peered = true := decide_eq_true ⟨hactive, hsome, by rw [he] at hhub; exact hhub⟩
  have haddr : n.address = r.address.getD .invalid := by rw [he]; rfl
  intro s hs
  rcases List.mem_cons.mp hs with rfl | hs
  · refine ⟨_, mem_routes.mpr (Or.inl ⟨r, hrn, hpeer, List.mem_cons_self⟩), rfl, fun q hq => ?_⟩
    rw [parsePrefix_host] at hq
    split at hq
    · rw [← Option.some.inj hq, haddr]
      rfl
    · exact absurd hq (by simp)
  · obtain ⟨p, hp, rfl⟩ := List.mem_map.mp hs
    refine ⟨⟨.inl r.id, true, p⟩, mem_routes.mpr (Or.inl ⟨r, hrn, hpeer, ?_⟩), rfl, fun q hq => ?_⟩
    · exact List.mem_cons_of_mem _ (List.mem_map.mpr ⟨p, hsub.mem_iff.mp hp, rfl⟩)
    · exact (parsePrefix_text_iff.mp hq).2.symm

/-- What a peer of a device is allowed is listed for that device. -/
theorem client_listed {clients : List (Uuid × Client)} (h : ClientsRead t clients) {id : Uuid} {c : Client}
    (hc : (id, c) ∈ clients) : ∀ s ∈ c.peer.allowed, ListedFor t (.inr id) s := by
  obtain ⟨r, hr, henabled, rfl, rfl⟩ := h.row hc
  intro s hs
  obtain rfl := List.mem_singleton.mp hs
  refine ⟨_, mem_routes.mpr (Or.inr ⟨r, hr, henabled, rfl⟩), rfl, fun q hq => ?_⟩
  rw [parsePrefix_host] at hq
  split at hq
  · exact (Option.some.inj hq).symm
  · exact absurd hq (by simp)

/-- The peers of `RenderHub`, each with its owner. -/
def ownedPeers (nodes : List (Uuid × Node)) (clients : List (Uuid × Client)) : List ((Uuid ⊕ Uuid) × HubPeer) :=
  (nodes.filter fun x => !x.2.isHub).map (fun x => (.inl x.1, x.2.peer)) ++
    clients.map (fun x => (.inr x.1, x.2.peer))

section OwnedPeers

variable {nodes : List (Uuid × Node)} {clients : List (Uuid × Client)}

/-- The peers with their owners are the hub's peers. -/
theorem ownedPeers_peers :
    hubPeers (nodes.map Prod.snd) (clients.map Prod.snd) = (ownedPeers nodes clients).map Prod.snd := by
  simp only [hubPeers, ownedPeers, List.filter_map, List.map_append, List.map_map]
  rfl

/-- No owner has two peers. -/
theorem ownedPeers_nodup (wf : t.Constraints) (hnodes : NodesRead t nodes) (hclients : ClientsRead t clients) :
    ((ownedPeers nodes clients).map Prod.fst).Nodup := by
  rw [ownedPeers, List.map_append, List.map_map, List.map_map, List.nodup_append]
  refine ⟨?_, ?_, ?_⟩
  · have hkeys := (hnodes.nodup_keys wf).sublist (List.filter_sublist (p := fun x => !x.2.isHub).map Prod.fst)
    simpa [Function.comp_def] using hkeys.map (f := Sum.inl (β := Uuid)) Sum.inl_injective
  · simpa [Function.comp_def] using (hclients.nodup_keys wf).map (f := Sum.inr (α := Uuid)) Sum.inr_injective
  · rintro x hx y hy rfl
    obtain ⟨_, -, rfl⟩ := List.mem_map.mp hx
    obtain ⟨_, -, he⟩ := List.mem_map.mp hy
    exact absurd he (by simp)

/-- **Printed routes.** What a peer's line lists is a route of its owner. -/
theorem ownedPeers_listed (hnodes : NodesRead t nodes) (hclients : ClientsRead t clients) {o : Uuid ⊕ Uuid}
    {p : HubPeer} (hp : (o, p) ∈ ownedPeers nodes clients) : ∀ s ∈ p.allowed, ListedFor t o s := by
  rcases List.mem_append.mp hp with hp | hp
  · obtain ⟨⟨id, n⟩, hn, he⟩ := List.mem_map.mp hp
    obtain ⟨rfl, rfl⟩ := Prod.mk.inj he
    obtain ⟨hn, hhub⟩ := List.mem_filter.mp hn
    exact node_listed hnodes hn (by simpa using hhub)
  · obtain ⟨⟨id, c⟩, hc, he⟩ := List.mem_map.mp hp
    obtain ⟨rfl, rfl⟩ := Prod.mk.inj he
    exact client_listed hclients hc

/-- An address that a peer owns is in a route of its owner. -/
theorem ownedPeers_owns (hnodes : NodesRead t nodes) (hclients : ClientsRead t clients) {o : Uuid ⊕ Uuid}
    {p : HubPeer} (hp : (o, p) ∈ ownedPeers nodes clients) {a : Addr} (ha : p.owns a) :
    ∃ x ∈ t.routes, x.owner = o ∧ x.dest.contains a = true := by
  obtain ⟨s, hs, hsa⟩ := List.any_eq_true.mp ha
  obtain ⟨x, hx, hxo, hxs⟩ := ownedPeers_listed hnodes hclients hp s hs
  obtain ⟨q, hq, hqa⟩ := (Option.any_eq_true _ _).mp hsa
  exact ⟨x, hx, hxo, hxs q hq ▸ hqa⟩

end OwnedPeers

/-! ## Apart -/

/-- No address belongs to two of the peers. -/
def PeersApart (peers : List HubPeer) : Prop := peers.Pairwise fun x y => ∀ a, ¬ (x.owns a ∧ y.owns a)

/-- Two peers' routes share an address, and at least one of them is to a LAN. -/
def Route.clash (x y : Route) : Bool := x.owner ≠ y.owner ∧ (x.lan ∨ y.lan) ∧ x.dest.overlaps y.dest

theorem Route.clash_comm (x y : Route) : x.clash y = y.clash x := by
  simp only [Route.clash, ne_comm, or_comm, overlaps_comm]

/-- No two routes clash, and every tunnel address is an IPv4 one. -/
structure RoutesApart (t : Tables) : Prop where
  apart : ∀ x ∈ t.routes, ∀ y ∈ t.routes, x.clash y = false
  hosts : ∀ x ∈ t.routes, x.lan = false → x.dest.is4 = true

/-- The routes the call adds clash with none that other peers have, and its tunnel address is IPv4. -/
def keepsRoutes (op : Op) (db : Db) : Bool :=
  (op.gains db.toTables).all fun x => (x.lan || x.dest.is4) && db.routes.all fun y => !x.clash y

/-- **Step.** Calls that pass the check keep the routes apart. -/
theorem routesApart_of_effect (hok : keepsRoutes op db = true) (h : Effect op db.toTables t')
    (wf' : t'.Constraints) (hold : RoutesApart db.toTables) : RoutesApart t' := by
  have hnew : ∀ x ∈ op.gains db.toTables,
      (x.lan = false → x.dest.is4 = true) ∧ ∀ y ∈ db.routes, x.clash y = false := by
    intro x hx
    have hx' := List.all_eq_true.mp hok x hx
    rw [Bool.and_eq_true, Bool.or_eq_true] at hx'
    refine ⟨fun hlan => hx'.1.resolve_left (by simp [hlan]), fun y hy => ?_⟩
    simpa using List.all_eq_true.mp hx'.2 y hy
  have hfrom := routes_of_effect db.wf wf' h
  refine ⟨fun x hx y hy => ?_, fun x hx => ?_⟩
  · rcases hfrom x hx with hx | hx <;> rcases hfrom y hy with hy | hy
    · exact hold.apart x hx y hy
    · rw [Route.clash_comm]
      exact (hnew y hy).2 x hx
    · exact (hnew x hx).2 y hy
    · -- two routes that one call adds are to one peer
      simp [Route.clash, gains_owner hx hy]
  · exact (hfrom x hx).elim (hold.hosts x) (hnew x · |>.1)

/-- A tunnel address has one owner. -/
theorem host_owner (hheld : db.heldAddrs.Nodup) {x y : Route} (hx : x ∈ db.routes) (hy : y ∈ db.routes)
    (hxl : x.lan = false) (hyl : y.lan = false) (he : x.dest.addr = y.dest.addr) : x.owner = y.owner := by
  obtain ⟨hnodes, hclients, hdisj⟩ := List.nodup_append.mp hheld
  have hhost : ∀ z ∈ db.routes, z.lan = false →
      (∃ n ∈ db.nodes, n.address = some z.dest.addr ∧ z.owner = .inl n.id) ∨
        ∃ c ∈ db.clients, c.address = z.dest.addr ∧ z.owner = .inr c.id := by
    intro z hz hzl
    rcases mem_routes.mp hz with ⟨n, hn, hpeer, hzn⟩ | ⟨c, hc, -, rfl⟩
    · obtain ⟨a, ha⟩ := Option.ne_none_iff_exists'.mp (of_decide_eq_true hpeer).2.1
      rcases List.mem_cons.mp hzn with rfl | hzn
      · exact Or.inl ⟨n, hn, by simp [hostRoute, Prefix.host, ha], rfl⟩
      · obtain ⟨s, -, rfl⟩ := List.mem_map.mp hzn
        exact absurd hzl (by simp)
    · exact Or.inr ⟨c, hc, rfl, rfl⟩
  rcases hhost x hx hxl with ⟨n, hn, hna, hxo⟩ | ⟨c, hc, hca, hxo⟩ <;>
    rcases hhost y hy hyl with ⟨m, hm, hma, hyo⟩ | ⟨d, hd, hda, hyo⟩
  · rw [hxo, hyo, eq_of_nodup_filterMap hnodes hn hm hna (he ▸ hma)]
  · exact absurd (hda.trans he.symm).symm
      (hdisj _ (List.mem_filterMap.mpr ⟨n, hn, hna⟩) _ (List.mem_map_of_mem hd))
  · exact absurd (hca.trans he).symm
      (hdisj _ (List.mem_filterMap.mpr ⟨m, hm, hma⟩) _ (List.mem_map_of_mem hc))
  · rw [hxo, hyo, List.inj_on_of_nodup_map hclients hc hd (hca.trans (he.trans hda.symm))]

/-- An address in the routes of two peers. -/
theorem RoutesApart.owner_eq (h : RoutesApart db.toTables) (hheld : db.heldAddrs.Nodup) {x y : Route} {a : Addr}
    (hx : x ∈ db.routes) (hy : y ∈ db.routes) (hxa : x.dest.contains a = true) (hya : y.dest.contains a = true) :
    x.owner = y.owner := by
  by_contra hne
  have hnoclash := h.apart x hx y hy
  have hlan : x.lan = false ∧ y.lan = false := by
    simpa [Route.clash, hne, overlaps_of_contains hxa hya] using hnoclash
  refine hne (host_owner hheld hx hy hlan.1 hlan.2 ?_)
  have hv4 : ∀ z ∈ db.routes, z.lan = false → z.dest.contains a = true → z.dest.addr = a := by
    intro z hz hzl hza
    have hz4 := h.hosts z hz hzl
    have hbits : z.dest = .host z.dest.addr := by
      rcases mem_routes.mp hz with ⟨n, -, -, hzn⟩ | ⟨c, -, -, rfl⟩
      · rcases List.mem_cons.mp hzn with rfl | hzn
        · rfl
        · obtain ⟨s, -, rfl⟩ := List.mem_map.mp hzn
          exact absurd hzl (by simp)
      · rfl
    rw [hbits] at hza
    cases haddr : z.dest.addr with
    | v4 y =>
      rw [haddr] at hza
      exact (host_v4_contains.mp hza).symm
    | invalid | v6 => exact absurd hz4 (by simp [Prefix.is4, Addr.is4, haddr])
  rw [hv4 x hx hlan.1 hxa, hv4 y hy hlan.2 hya]

/-- **Cryptokey routing.** In every state reached from the first start by calls that keep the routes apart,
    no address is in the `AllowedIPs` of two peers, whatever the snapshot the file is printed from. For clean
    texts the printed file reads back as these peers (`Awg.filePeers_renderHub`, `Store.file_peers`). -/
theorem peers_apart {secret : String}
    (hcalls : Calls apply Op.body (fun op c => keepsRoutes op c = true) (Db.boot hub secret) db)
    (hout : SnapshotOf db.toTables out) : PeersApart (hubPeers out.nodes out.clients) := by
  have hroutes : RoutesApart db.toTables :=
    effect_induction (I := RoutesApart) (fun _ _ _ hok h wf' hold => routesApart_of_effect hok h wf' hold) hcalls
      ⟨fun _ hx => absurd hx List.not_mem_nil, fun _ hx => absurd hx List.not_mem_nil⟩
  have hheld : db.heldAddrs.Nodup :=
    (addrInv_of_steps (stepsIn_of_calls (fun _ => trivial) (fun _ => trivial) hcalls)).nodup
  obtain ⟨nodes, clients, rules, grants, links, hnodes, hclients, -, -, -, rfl⟩ := hout
  show PeersApart (hubPeers (nodes.map Prod.snd) (clients.map Prod.snd))
  rw [ownedPeers_peers, PeersApart, List.pairwise_map]
  refine (List.pairwise_map.mp (ownedPeers_nodup db.wf hnodes hclients)).imp_of_mem ?_
  rintro ⟨o, p⟩ ⟨o', p'⟩ hp hp' hne a ⟨ha, ha'⟩
  obtain ⟨x, hx, rfl, hxa⟩ := ownedPeers_owns hnodes hclients hp ha
  obtain ⟨y, hy, rfl, hya⟩ := ownedPeers_owns hnodes hclients hp' ha'
  exact hne (hroutes.owner_eq hheld hx hy hxa hya)

/-- Two nodes that an operator creates with the same LAN. -/
def sameLanRun (lan : Prefix) : List Op :=
  [.createNode 1 "home" "eth0" [⟨.ofBytes 192 168 1 0, 24⟩] ⟨"priv1", "pub1"⟩ "psk",
    .createNode 2 "office" "eth0" [lan] ⟨"priv2", "pub2"⟩ "psk"]

/-- **The defect.** Two requests that are accepted, and both peers own an address of the LAN. -/
theorem createNode_takes_lan :
    (∀ fresh : Api.Fresh, fresh.id = 2 → fresh.keys = ⟨"priv2", "pub2"⟩ → fresh.psk = "psk" →
      (Api.AdminReq.createNode ⟨"office", "eth0", ["192.168.1.0/24"]⟩).calls fresh =
        .ok ((sameLanRun ⟨.ofBytes 192 168 1 0, 24⟩).drop 1)) ∧
    ∃ db, runAll apply Op.body (fun _ _ => true) (Db.boot demoHub "") (sameLanRun ⟨.ofBytes 192 168 1 0, 24⟩) =
        some db ∧
      ∃ out, SnapshotOf db.toTables out ∧ ¬ PeersApart (hubPeers out.nodes out.clients) := by
  refine ⟨?_, ?_⟩
  · rintro ⟨id, token, keys, psk, hk, hp⟩ rfl rfl rfl
    rfl
  · have hrun : ((runAll apply Op.body (fun _ _ => true) (Db.boot demoHub "")
        (sameLanRun ⟨.ofBytes 192 168 1 0, 24⟩)).any fun db =>
          let peers := hubPeers (snapshot db.toTables).nodes (snapshot db.toTables).clients
          peers[0]?.any fun x => peers[1]?.any fun y =>
            decide (x.owns (.ofBytes 192 168 1 5) ∧ y.owns (.ofBytes 192 168 1 5))) = true := by decide +kernel
    obtain ⟨db, hdb, hcheck⟩ := (Option.any_eq_true _ _).mp hrun
    obtain ⟨x, hx, hcheck⟩ := (Option.any_eq_true _ _).mp hcheck
    obtain ⟨y, hy, hcheck⟩ := (Option.any_eq_true _ _).mp hcheck
    refine ⟨db, hdb, _, snapshot_spec db.toTables, fun hapart => ?_⟩
    obtain ⟨h₀, rfl⟩ := List.getElem?_eq_some_iff.mp hx
    obtain ⟨h₁, rfl⟩ := List.getElem?_eq_some_iff.mp hy
    exact List.pairwise_iff_getElem.mp hapart 0 1 h₀ h₁ Nat.zero_lt_one _ (of_decide_eq_true hcheck)

/-- Different LANs pass the check. -/
theorem peers_apart_twoLans : ∃ db,
    runAll apply Op.body keepsRoutes (Db.boot demoHub "") (sameLanRun ⟨.ofBytes 192 168 2 0, 24⟩) = some db ∧
    PeersApart (hubPeers (snapshot db.toTables).nodes (snapshot db.toTables).clients) := by
  have hrun : (runAll apply Op.body keepsRoutes (Db.boot demoHub "")
      (sameLanRun ⟨.ofBytes 192 168 2 0, 24⟩)).isSome = true := by decide +kernel
  obtain ⟨db, hdb⟩ := Option.isSome_iff_exists.mp hrun
  exact ⟨db, hdb, peers_apart (calls_of_runAll hdb) (snapshot_spec db.toTables)⟩

/-! ## Default route -/

/-- No peer's line lists a prefix of length 0. -/
def NoDefaultRoute (peers : List HubPeer) : Prop :=
  ∀ p ∈ peers, ∀ s ∈ p.allowed, ∀ q, parsePrefix s = some q → q.bits ≠ 0

/-- The call adds no route of length 0. -/
def keepsSpecific (op : Op) (db : Db) : Bool := (op.gains db.toTables).all fun x => x.dest.bits ≠ 0

/-- A peer's line lists what its owner has a route for, so a default route would be one of the routes. -/
theorem noDefaultRoute_hubPeers (hroutes : ∀ x ∈ t.routes, x.dest.bits ≠ 0) (hout : SnapshotOf t out) :
    NoDefaultRoute (hubPeers out.nodes out.clients) := by
  obtain ⟨nodes, clients, rules, grants, links, hnodes, hclients, -, -, -, rfl⟩ := hout
  show NoDefaultRoute (hubPeers (nodes.map Prod.snd) (clients.map Prod.snd))
  rw [ownedPeers_peers]
  intro p hp s hs q hq
  obtain ⟨⟨o, p⟩, hmem, rfl⟩ := List.mem_map.mp hp
  obtain ⟨x, hx, -, hxs⟩ := ownedPeers_listed hnodes hclients hmem s hs
  rw [hxs q hq]
  exact hroutes x hx

/-- **No default route.** In every state reached from the first start by calls that make no prefix of length 0 a peer's
    subnet and store no text that leaves its line, the printed file reads back, and none of its peers has a prefix of
    length 0. -/
theorem no_default_route {secret : String} (hpriv : Api.isBase64 hub.keys.priv = true)
    (hcalls : Calls apply Op.body (fun op c => keepsSpecific op c = true ∧ OpTexts op) (Db.boot hub secret) db)
    (hout : SnapshotOf db.toTables out) : ∃ peers, out.filePeers = some peers ∧ NoDefaultRoute peers := by
  have hroutes : ∀ x ∈ db.routes, x.dest.bits ≠ 0 :=
    routes_of_calls (fun op c hop x hx => of_decide_eq_true (List.all_eq_true.mp hop.1 x hx)) hcalls
  have hfile := file_peers (clean_of_base64 hpriv) (stepsIn_ops_of_calls (fun _ _ hop => hop.2) hcalls) hout
  exact ⟨_, hfile, noDefaultRoute_hubPeers hroutes hout⟩

/-- The node an operator creates with this subnet. -/
def subnetRun (lan : Prefix) : List Op := [.createNode 1 "home" "eth0" [lan] ⟨"priv", "pub"⟩ "psk"]

/-- **The defect.** A request that is accepted makes a node the owner of everything: the printed file reads back with
    the default route in a peer's line. -/
theorem createNode_takes_default :
    (Api.AdminReq.createNode ⟨"home", "eth0", ["0.0.0.0/0"]⟩).calls Api.demoFresh =
      .ok (subnetRun ⟨.ofBytes 0 0 0 0, 0⟩) ∧
    ∃ db, runAll apply Op.body (fun _ _ => true) (Db.boot demoHub "") (subnetRun ⟨.ofBytes 0 0 0 0, 0⟩) = some db ∧
      ∃ out, SnapshotOf db.toTables out ∧ ∃ peers, out.filePeers = some peers ∧ ¬ NoDefaultRoute peers := by
  refine ⟨by rfl, ?_⟩
  have hrun : ((runAll apply Op.body (fun _ _ => true) (Db.boot demoHub "")
      (subnetRun ⟨.ofBytes 0 0 0 0, 0⟩)).any fun db => (snapshot db.toTables).filePeers.any fun peers =>
        peers.any fun p => p.allowed.any fun s => (parsePrefix s).any fun q => q.bits = 0) = true := by
    decide +kernel
  obtain ⟨db, hdb, hcheck⟩ := (Option.any_eq_true _ _).mp hrun
  obtain ⟨peers, hpeers, hcheck⟩ := (Option.any_eq_true _ _).mp hcheck
  obtain ⟨p, hp, hcheck⟩ := List.any_eq_true.mp hcheck
  obtain ⟨s, hs, hcheck⟩ := List.any_eq_true.mp hcheck
  obtain ⟨q, hq, hbits⟩ := (Option.any_eq_true _ _).mp hcheck
  exact ⟨db, hdb, _, snapshot_spec db.toTables, peers, hpeers, fun hno => hno p hp s hs q hq (of_decide_eq_true hbits)⟩

/-- A LAN passes the check. -/
theorem no_default_route_lan : ∃ db peers,
    runAll apply Op.body keepsSpecific (Db.boot demoHub "") (subnetRun ⟨.ofBytes 192 168 1 0, 24⟩) = some db ∧
    (snapshot db.toTables).filePeers = some peers ∧ NoDefaultRoute peers := by
  have hrun : (runAll apply Op.body keepsSpecific (Db.boot demoHub "")
      (subnetRun ⟨.ofBytes 192 168 1 0, 24⟩)).isSome = true := by decide +kernel
  obtain ⟨db, hdb⟩ := Option.isSome_iff_exists.mp hrun
  have htexts : ∀ op ∈ subnetRun ⟨.ofBytes 192 168 1 0, 24⟩, OpTexts op := by
    intro op hop
    rw [List.mem_singleton.mp hop]
    exact ⟨show Quiet "home" by decide, show Clean "pub" from Solid.clean (by decide),
      show Clean "psk" from Solid.clean (by decide)⟩
  obtain ⟨peers, hpeers, hno⟩ :=
    no_default_route (by decide) (calls_of_runAll_where htexts hdb) (snapshot_spec db.toTables)
  exact ⟨db, peers, hdb, hpeers, hno⟩

end Store
end BeautyAwg
