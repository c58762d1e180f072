import Mathlib.Data.List.Perm.Basic
import BeautyAwg.Service.Reconcile
import BeautyAwg.Store.Commits
import BeautyAwg.Store.Effect

/-!
# `Service.Correctness.Mutations`: one request and the live hub

An operator's request ends with a reconcile and leaves the hub as the database says. The enrolment endpoint does
not reconcile. That matters for one kind of announcement only: a node that is live announces other subnets, and
the hub goes on routing the old ones until somebody else's request reconciles.

## Contents
- **Requests.** `Request`, `Handled`; `InSync`: the hub has what the database is rendered to.
- **What a plan depends on.** `relabel`, `plan_relabel`, `nodesRead_announced`; `meshRoutes_perm`.
- **Announcements.** `Reshapes`, and both directions of the result for one announcement.
- **Result.** `mutation_reaches_hub`.
-/

namespace BeautyAwg
namespace Service

open Netip Awg Store Api Txn

/-! ## Requests -/

/-- A mutating request: an operator's, or an announcement under the secret `header`. -/
inductive Request where
  | admin (req : AdminReq)
  | enroll (header : String) (req : EnrollReq)

/-- The applier was last handed what a snapshot of these tables is rendered to. -/
def InSync (t : Tables) (a : Applied) : Prop := ∃ s, SnapshotOf t s ∧ a = Applied.of (Plan.of s)

/-- A request handled to its end with nothing beside it, every store and applier call succeeding. -/
inductive Handled (fresh : Fresh) : Request → Db → Applied → Db → Applied → Prop
  | admin {req : AdminReq} {ops : List Op} {db db' : Db} {a : Applied} {s : Snapshot}
    (hcalls : req.calls fresh = .ok ops) (hrun : runAll Store.apply Op.body (fun _ _ => true) db ops = some db')
    (hread : SnapshotOf db'.toTables s) : Handled fresh (.admin req) db a db' (Applied.of (Plan.of s))
  | enroll {header : String} {req : EnrollReq} {op : Op} {db db' : Db} {a : Applied}
    (hcall : handleEnroll fresh db.enrollSecret header req = .ok op)
    (hrun : run Store.apply op.body db = .ok ((), db')) : Handled fresh (.enroll header req) db a db' a

/-! ## What a plan depends on -/

section Plans

variable {t t' : Tables} {id : Uuid} {iface : String} {nodes : List (Uuid × Node)} {clients : List (Uuid × Client)}

/-- The node listed under `id`, with another LAN interface. -/
def relabel (id : Uuid) (iface : String) (x : Uuid × Node) : Uuid × Node :=
  (x.1, if x.1 = id then { x.2 with lanIface := iface } else x.2)

/-- What the LAN interface is no part of. -/
theorem relabel_field {α : Type} {F : Node → α} (hF : ∀ n iface, F { n with lanIface := iface } = F n)
    (x : Uuid × Node) : F (relabel id iface x).2 = F x.2 := by
  unfold relabel
  split
  · exact hF _ _
  · rfl

/-- The nodes that are not the hub's. -/
theorem filter_relabel {α : Type} {F : Node → α} (hF : ∀ n iface, F { n with lanIface := iface } = F n) :
    (((nodes.map (relabel id iface)).map Prod.snd).filter fun n => !n.isHub).map F =
      ((nodes.map Prod.snd).filter fun n => !n.isHub).map F := by
  have hhub : ∀ x : Uuid × Node, (relabel id iface x).2.isHub = x.2.isHub := relabel_field fun _ _ => rfl
  simp only [List.filter_map, List.map_map, Function.comp_def, hhub]
  exact List.map_congr_left fun x _ => relabel_field hF x

/-- A look-up among the relabelled nodes finds the node that it found, relabelled. -/
theorem lookup_relabel {node : Uuid} : (nodes.map (relabel id iface)).lookup node =
    (nodes.lookup node).map fun n => (relabel id iface (node, n)).2 := by
  induction nodes with
  | nil => rfl
  | cons x rest ih =>
    obtain ⟨k, n⟩ := x
    rw [List.map_cons]
    by_cases hk : node = k
    · subst hk
      rw [show relabel id iface (node, n) = (node, (relabel id iface (node, n)).2) from rfl, List.lookup_cons_self,
        List.lookup_cons_self]
      rfl
    · rw [show relabel id iface (k, n) = (k, (relabel id iface (k, n)).2) from rfl, List.lookup_cons,
        List.lookup_cons, beq_false_of_ne hk]
      exact ih

/-- Grants carry no interface name, so they are the same after relabelling. -/
theorem joinGrant_relabel {rules : List RuleRow} (g : GrantRow) :
    joinGrant (nodes.map (relabel id iface)) clients rules g = joinGrant nodes clients rules g := by
  unfold joinGrant
  rw [lookup_relabel]
  cases clients.lookup g.clientId with
  | none => rfl
  | some c =>
    cases nodes.lookup g.nodeId with
    | none => rfl
    | some n =>
      simp only [Option.map_some, Option.some.injEq]
      unfold relabel
      split <;> rfl

/-- Links carry none either. -/
theorem joinLink_relabel (l : LinkRow) : joinLink (nodes.map (relabel id iface)) l = joinLink nodes l := by
  unfold joinLink
  rw [lookup_relabel, lookup_relabel]
  cases nodes.lookup l.src with
  | none => rfl
  | some a =>
    cases nodes.lookup l.dst with
    | none => rfl
    | some b =>
      simp only [Option.map_some]
      unfold relabel
      split <;> split <;> rfl

/-- **The plan** does not depend on the nodes' LAN interfaces. -/
theorem plan_relabel {hub : Hub} {rules : List RuleRow} {grants : List GrantRow} {links : List LinkRow} :
    Plan.of (assemble hub (nodes.map (relabel id iface)) clients rules grants links) =
      Plan.of (assemble hub nodes clients rules grants links) := by
  let nodes' := (nodes.map (relabel id iface)).map Prod.snd
  have hblocks : (nodes'.filter fun n => !n.isHub).map nodeBlock = _ := filter_relabel fun _ _ => rfl
  have hsubnets : (nodes'.filter fun n => !n.isHub).map Node.subnets = _ := filter_relabel fun _ _ => rfl
  have hroutes : meshRoutes nodes' = meshRoutes (nodes.map Prod.snd) := by
    simp only [meshRoutes, List.flatMap_def, hsubnets]
  have hmesh : nftMesh hub nodes' = nftMesh hub (nodes.map Prod.snd) := by
    simp only [nftMesh, List.flatMap_def, hsubnets]
  have hgrants : joinGrant (nodes.map (relabel id iface)) clients rules = joinGrant nodes clients rules :=
    funext joinGrant_relabel
  have hlinks : joinLink (nodes.map (relabel id iface)) = joinLink nodes := funext joinLink_relabel
  have hconf : ∀ cs, renderHub hub nodes' cs = renderHub hub (nodes.map Prod.snd) cs := by
    intro cs
    unfold renderHub
    rw [hblocks]
  have hacl : ∀ gs ls, renderNFT hub nodes' gs ls = renderNFT hub (nodes.map Prod.snd) gs ls := by
    intro gs ls
    unfold renderNFT nftRuleset forwardChain
    rw [hmesh]
  unfold Plan.of assemble mesh
  rw [hgrants, hlinks]
  simp only [nodes'] at hconf hacl hroutes
  simp only [hconf, hacl, hroutes]

/-- A live row is found by its id. -/
theorem find_live (wf : t.Constraints) {r : NodeRow} (hr : r ∈ t.liveNodes) :
    (t.liveNodes.find? fun x => x.id = r.id) = some r := by
  cases hfind : t.liveNodes.find? fun x => x.id = r.id with
  | none => exact absurd (List.find?_eq_none.mp hfind r hr) (by simp)
  | some x =>
    have hx := List.mem_of_find?_eq_some hfind
    have hid : x.id = r.id := by simpa using List.find?_some hfind
    rw [node_eq_of_id wf (List.mem_filter.mp hx).1 (List.mem_filter.mp hr).1 hid]

/-- The rows that the nodes' query returns once node `id` has announced itself, its subnets as before. -/
theorem nodesRead_announced {token hostname : String} (wf : t.Constraints)
    (hlive : t'.liveNodes = t.liveNodes.map fun r => if r.id = id then announce token hostname iface r else r)
    (hsubnets : ∀ r ∈ t.liveNodes, (t.subnetsOf r.id).Perm (t'.subnetsOf r.id)) (hdomains : t'.domains = t.domains)
    (h : NodesRead t nodes) : NodesRead t' (nodes.map (relabel id iface)) := by
  obtain ⟨hsorted, subnets, domains, hs, hd, hperm⟩ := h
  -- each row's lists in the order in which they were read before
  let before {α : Type} (f : NodeRow → α) (d : α) (x : NodeRow) : α :=
    ((t.liveNodes.find? fun r => r.id = x.id).map f).getD d
  refine ⟨?_, fun x => before subnets (t'.subnetsOf x.id) x, fun x => before domains (t'.domainsOf x.id) x,
    fun x => ?_, fun x => ?_, ?_⟩
  · refine List.pairwise_map.mpr (hsorted.imp fun {x y} hxy => ?_)
    have haddr : ∀ x : Uuid × Node, (relabel id iface x).2.address = x.2.address := relabel_field fun _ _ => rfl
    unfold byAddress at hxy ⊢
    rw [haddr, haddr]
    exact hxy
  · simp only [before]
    cases hfind : t.liveNodes.find? fun r => r.id = x.id with
    | none => exact List.Perm.refl _
    | some r =>
      have hid : r.id = x.id := by simpa using List.find?_some hfind
      exact (hs r).trans (hid ▸ hsubnets r (List.mem_of_find?_eq_some hfind))
  · simp only [before]
    cases hfind : t.liveNodes.find? fun r => r.id = x.id with
    | none => exact List.Perm.refl _
    | some r =>
      have hid : r.id = x.id := by simpa using List.find?_some hfind
      have hsame : t'.domainsOf x.id = t.domainsOf r.id := by rw [hid]; unfold Tables.domainsOf; rw [hdomains]
      exact hsame ▸ hd r
  · refine (hperm.map _).trans ?_
    rw [hlive, List.map_map, List.map_map]
    refine List.Perm.of_eq (List.map_congr_left fun r hr => ?_)
    have hfound := find_live wf hr
    simp only [Function.comp_apply, before]
    split
    · rename_i hid
      rw [show (announce token hostname iface r).id = r.id from rfl, hfound]
      exact Prod.ext rfl (if_pos hid)
    · rename_i hid
      rw [hfound]
      exact Prod.ext rfl (if_neg hid)

/-- The routed subnets are those of the live nodes that are not the hub's. -/
theorem meshRoutes_perm (h : NodesRead t nodes) : (meshRoutes (nodes.map Prod.snd)).Perm
    ((t.liveNodes.filter fun r => !r.isHub).flatMap fun r => t.subnetsOf r.id) := by
  obtain ⟨-, subnets, domains, hs, -, hperm⟩ := h
  have hrows := ((hperm.map Prod.snd).filter fun n => !n.isHub).flatMap_right Node.subnets
  refine hrows.trans ?_
  rw [List.map_map, List.filter_map, List.flatMap_map]
  exact List.Perm.flatMap_left _ fun r _ => hs r

end Plans

/-! ## Announcements -/

section Announcements

variable {t t' : Tables} {id : Uuid} {newToken name hostname lanIface pubkey : String} {subnets : List Prefix}
  {pick : Nat} {a : Applied}

/-- The announcement is taken for a live node and carries other subnets than the node has. -/
def Reshapes (t : Tables) (pubkey : String) (pick : Nat) (subnets : List Prefix) : Prop :=
  ∃ r, anyRow pick (t.nodes.filter fun n => n.keys.pub = pubkey) = some r ∧ r.status = .active ∧ r.address ≠ none ∧
    ¬ subnets.Perm (t.subnetsOf r.id)

/-- Announcing itself neither revives a node nor takes it down. -/
theorem live_announce (token hostname lanIface : String) (n : NodeRow) :
    ((announce token hostname lanIface n).status = .active ∧ (announce token hostname lanIface n).address ≠ none) ↔
      (n.status = .active ∧ n.address ≠ none) := by
  refine and_congr_left fun _ => ⟨active_of_announce, fun h => ?_⟩
  show reannounced n.status = .active
  rw [h]
  rfl

/-- An announcement of a known node relabels it in the list and changes nothing else. -/
theorem liveNodes_announced {token : String} {nodes : List NodeRow} (hnodes : nodes = t.nodes) (node : Uuid) :
    (({ t with nodes := nodes } : Tables).editNode node (announce token hostname lanIface)).liveNodes =
      t.liveNodes.map fun r => if r.id = node then announce token hostname lanIface r else r := by
  subst hnodes
  show List.filter _ (List.map _ t.nodes) = _
  rw [List.filter_map]
  refine congrArg (List.map _) (List.filter_congr fun n _ => ?_)
  simp only [Function.comp_apply]
  split
  · exact decide_eq_decide.mpr (live_announce token hostname lanIface n)
  · rfl

/-- A row's tables after an announcement of the node with that row. -/
theorem inSync_announced (id : Uuid) (token hostname lanIface : String) (wf : t.Constraints)
    (hlive : t'.liveNodes = t.liveNodes.map fun r => if r.id = id then announce token hostname lanIface r else r)
    (hsubnets : ∀ r ∈ t.liveNodes, (t.subnetsOf r.id).Perm (t'.subnetsOf r.id)) (hhub : t'.hub = t.hub)
    (hdomains : t'.domains = t.domains) (hclients : t'.clients = t.clients) (hgrants : t'.grants = t.grants)
    (hrules : t'.grantRules = t.grantRules) (hlinks : t'.links = t.links) (h : InSync t a) : InSync t' a := by
  obtain ⟨s, ⟨nodes, clients, rules, grants, links, hn, hc, hr, hg, hl, rfl⟩, rfl⟩ := h
  refine ⟨assemble t'.hub (nodes.map (relabel id lanIface)) clients rules grants links,
    ⟨_, _, _, _, _, nodesRead_announced wf hlive hsubnets hdomains hn, ?_, ?_, ?_, ?_, rfl⟩, ?_⟩
  · unfold ClientsRead Tables.enabledClients
    rw [hclients]
    exact hc
  · unfold RulesRead
    rw [hrules]
    exact hr
  · unfold GrantsRead Tables.enabledGrants
    rw [hclients, hgrants]
    exact hg
  · unfold LinksRead
    rw [hlinks]
    exact hl
  · rw [plan_relabel, hhub]

/-- An announcement that reshapes no live node leaves the hub in sync. -/
theorem inSync_enrollNode (wf : t.Constraints) (wf' : t'.Constraints)
    (heff : Effect (.enrollNode id newToken name hostname lanIface pubkey subnets pick) t t')
    (hno : ¬ Reshapes t pubkey pick subnets) (h : InSync t a) : InSync t' a := by
  cases heff with
  | @reenrolled _ _ _ _ _ _ _ _ _ r hr =>
    refine inSync_announced r.id _ _ _ wf (liveNodes_announced rfl r.id) (fun x hx => ?_) rfl rfl rfl rfl rfl rfl h
    refine List.Perm.trans ?_ (List.Perm.of_eq (subnetsOf_replaced (t := t) rfl).symm)
    split
    · rename_i hid
      obtain ⟨hmem, hlive⟩ := List.mem_filter.mp hx
      obtain rfl := node_eq_of_id wf hmem (anyRow_filter hr).1 hid.1
      obtain ⟨hactive, haddr⟩ := of_decide_eq_true hlive
      by_contra hperm
      exact hno ⟨x, hr, hactive, haddr, fun hp => hperm hp.symm⟩
    · exact List.Perm.refl _
  | @registered _ id newToken name hostname lanIface pubkey subnets pick hr =>
    have hne : ∀ x ∈ t.liveNodes, x.id ≠ id := fun x hx => nodup_append_ne wf'.nodes_pkey (List.mem_filter.mp hx).1
    refine inSync_announced id newToken hostname lanIface wf ?_ (fun x hx => ?_) rfl rfl rfl rfl rfl rfl h
    · have hlive : List.filter (fun n => n.status = .active ∧ n.address ≠ none)
          (t.nodes ++ [enrolledNode id newToken name hostname lanIface pubkey]) = t.liveNodes := by
        rw [List.filter_append]
        exact List.append_nil _
      have hsame : t.liveNodes.map (fun r => if r.id = id then announce newToken hostname lanIface r else r) =
          t.liveNodes :=
        (List.map_congr_left fun x hx => if_neg (hne x hx)).trans (List.map_id _)
      exact hlive.trans hsame.symm
    · refine List.Perm.trans ?_ (List.Perm.of_eq (subnetsOf_added (t := t) rfl).symm)
      rw [if_neg (hne x hx), List.append_nil]

/-- Rows split by an id. -/
theorem flatMap_perm_cons {rows : List NodeRow} (hids : (rows.map NodeRow.id).Nodup) {r : NodeRow} (hr : r ∈ rows) :
    ∃ rest : List NodeRow, (∀ x ∈ rest, x.id ≠ r.id) ∧
      ∀ f : NodeRow → List Prefix, (rows.flatMap f).Perm (f r ++ rest.flatMap f) := by
  refine ⟨rows.erase r, fun x hx hid => ?_, fun f => (List.perm_cons_erase hr).flatMap_right f⟩
  have hperm := (List.perm_cons_erase hr).map NodeRow.id
  have hnodup := (hperm.nodup_iff.mp hids)
  exact (List.nodup_cons.mp hnodup).1 (hid ▸ List.mem_map_of_mem hx)

/-- **The defect.** An announcement that reshapes a live node leaves the hub with the old routes. -/
theorem not_inSync_enrollNode (wf : t.Constraints)
    (heff : Effect (.enrollNode id newToken name hostname lanIface pubkey subnets pick) t t')
    (hhub : ∀ n ∈ t.nodes, n.isHub = true → n.keys.pub = "") (hpub : pubkey ≠ "") (hsub : subnets ≠ [])
    (hreshapes : Reshapes t pubkey pick subnets) (h : InSync t a) : ¬ InSync t' a := by
  obtain ⟨r, hr, hactive, haddr, hother⟩ := hreshapes
  cases heff with
  | registered hr' => exact absurd (hr.symm.trans hr') (by simp)
  | @reenrolled _ _ _ _ _ _ _ _ _ m hm =>
    obtain rfl := Option.some.inj (hr.symm.trans hm)
    rintro ⟨s', ⟨nodes', _, _, _, _, hn', -, -, -, -, rfl⟩, ha'⟩
    obtain ⟨s, ⟨nodes, _, _, _, _, hn, -, -, -, -, rfl⟩, ha⟩ := h
    have hroutes : meshRoutes (nodes'.map Prod.snd) = meshRoutes (nodes.map Prod.snd) :=
      Option.some.inj (congrArg Applied.ensureRoutes (ha'.symm.trans ha))
    let f : NodeRow → NodeRow := fun x =>
      if x.id = r.id then announce (derefOr r.enrollToken newToken) hostname lanIface x else x
    let t' : Tables := { t.editNode r.id (announce (derefOr r.enrollToken newToken) hostname lanIface) with
      subnets := t.replacedSubnets r.id subnets }
    let others := t.liveNodes.filter fun x => !x.isHub
    have hlive : t'.liveNodes.filter (fun x => !x.isHub) = others.map f := by
      have hall : t'.liveNodes = t.liveNodes.map f := liveNodes_announced rfl r.id
      rw [hall, List.filter_map]
      refine congrArg (List.map f) (List.filter_congr fun x _ => ?_)
      simp only [f, Function.comp_apply]
      split <;> rfl
    have hids : ∀ x, (f x).id = x.id := fun x => by simp only [f]; split <;> rfl
    have hsubnets : ∀ x, t'.subnetsOf x = if x = r.id ∧ subnets ≠ [] then subnets else t.subnetsOf x :=
      fun x => subnetsOf_replaced (t := t) rfl
    have hr_mem : r ∈ others := by
      have hr_node := (anyRow_filter hr).1
      have hkey : r.keys.pub = pubkey := of_decide_eq_true (anyRow_filter hr).2
      refine List.mem_filter.mpr ⟨List.mem_filter.mpr ⟨hr_node, decide_eq_true ⟨hactive, haddr⟩⟩, ?_⟩
      cases hh : r.isHub with
      | false => rfl
      | true => exact absurd (hkey.symm.trans (hhub r hr_node hh)) hpub
    have hnodup : (others.map NodeRow.id).Nodup :=
      wf.nodes_pkey.sublist ((List.filter_sublist.trans List.filter_sublist).map _)
    obtain ⟨rest, hrest, hsplit⟩ := flatMap_perm_cons hnodup hr_mem
    have hnew : (meshRoutes (nodes'.map Prod.snd)).Perm (subnets ++ rest.flatMap fun x => t.subnetsOf x.id) := by
      have hall := meshRoutes_perm (t := t') hn'
      rw [hlive, List.flatMap_map] at hall
      refine (hall.trans (hsplit _)).trans (List.Perm.of_eq ?_)
      rw [hids, hsubnets, if_pos ⟨rfl, hsub⟩]
      refine congrArg (subnets ++ ·) (List.flatMap_congr fun x hx => ?_)
      rw [hids, hsubnets, if_neg fun h => hrest x hx h.1]
    -- the routes of the other nodes are on both sides
    have hboth := hnew.symm.trans ((List.Perm.of_eq hroutes).trans ((meshRoutes_perm hn).trans (hsplit _)))
    exact hother ((List.perm_append_right_iff _).mp hboth)

end Announcements

/-! ## Result -/

section Result

variable {hub : Hub} {secret : String} {s : Sys Op Db Write Lock StoreErr} {db' : Db} {a a' : Applied} {fresh : Fresh}
  {req : Request}

/-- The request is an announcement that reshapes a live node. -/
def Request.Reshapes (fresh : Fresh) (t : Tables) : Request → Prop
  | admin _ => False
  | enroll _ req =>
    ∃ subnets, parseSubnets req.subnets = .ok subnets ∧ Service.Reshapes t req.publicKey fresh.row subnets

/-- The hub's row has no public key, in any state the panel reaches. -/
theorem hubKey_of_steps (h : Steps Store.apply Op.body (Sys.idle (Db.boot hub secret)) s) :
    ∀ n ∈ s.committed.nodes, n.isHub = true → n.keys.pub = "" := by
  have hall : StepsIn Store.apply Op.body (OpsIn fun _ => True) (Sys.idle (Db.boot hub secret)) s :=
    stepsIn_mono (fun _ _ _ _ _ => trivial) h
  refine good_of_writes (W := Op.Writes) (I := fun c : Db => ∀ n ∈ c.nodes, n.isHub = true → n.keys.pub = "")
    body_allWrites (fun op w c c' _ hw happly hold n hn hhub => ?_) (fun n hn => absurd hn List.not_mem_nil) hall
  rw [apply_eq_ok] at happly
  rw [← happly] at hn
  cases w with
  | insertNode r =>
    rcases List.mem_append.mp hn with hn | hn
    · exact hold n hn hhub
    · obtain rfl := List.mem_singleton.mp hn
      cases hw with
      | createNode => exact absurd hhub (by simp [createdNode])
      | enrollNode => exact absurd hhub (by simp [enrolledNode])
      | ensureHubNode => rfl
  | updateNode id f =>
    obtain ⟨m, hm, rfl⟩ := List.mem_map.mp hn
    split at hhub
    · rename_i hid
      have hsame := sameNode_of_update hw m
      rw [if_pos hid, ← hsame.2.2]
      exact hold m hm (hsame.2.1.trans hhub)
    · rename_i hid
      rw [if_neg hid]
      exact hold m hm hhub
  | deleteNode id => exact hold n (List.mem_filter.mp hn).1 hhub
  | _ => exact hold n hn hhub

/-- **One request.** Let the hub be in sync with the database in a state that the panel reaches, and let a
    mutating request be handled to a success status. The hub is in sync afterwards unless, and only unless, the
    request is an announcement that gives a live node other subnets. -/
theorem mutation_reaches_hub (hreach : Steps Store.apply Op.body (Sys.idle (Db.boot hub secret)) s)
    (hsync : InSync s.committed.toTables a) (h : Handled fresh req s.committed a db' a') :
    InSync db'.toTables a' ↔ ¬ req.Reshapes fresh s.committed.toTables := by
  cases h with
  | admin hcalls hrun hread => exact ⟨fun _ => id, fun _ => ⟨_, hread, rfl⟩⟩
  | enroll hcall hrun =>
    have hpub := handleEnroll_key hcall
    obtain ⟨subnets, hparse, hsub, rfl⟩ := handleEnroll_subnets hcall
    have heff := effect_of_run hrun
    constructor
    · rintro hsync' ⟨subnets', hparse', hreshapes⟩
      obtain rfl := Except.ok.inj (hparse.symm.trans hparse')
      exact not_inSync_enrollNode s.committed.wf heff (hubKey_of_steps hreach) hpub hsub hreshapes hsync hsync'
    · exact fun hno => inSync_enrollNode s.committed.wf db'.wf heff (fun hr => hno ⟨subnets, hparse, hr⟩) hsync

end Result

section Example

/-- A node that enrols and is approved. -/
def liveHome : List Op :=
  [.enrollNode 1 "token" "home" "home" "eth0" "pub" [⟨.ofBytes 192 168 1 0, 24⟩] 0, .approveNode 1]

/-- The node announces another subnet. -/
def movedHome : Request := .enroll "" ⟨"home", "home", "eth0", "pub", ["192.168.2.0/24"]⟩

theorem handleEnroll_movedHome {secret : String} (h : secret = "") :
    handleEnroll demoFresh secret "" ⟨"home", "home", "eth0", "pub", ["192.168.2.0/24"]⟩ =
      .ok (.enrollNode 1 "token" "home" "home" "eth0" "pub" [⟨.ofBytes 192 168 2 0, 24⟩] 0) := by
  subst h
  decide +kernel

/-- A live node moves, and the hub keeps the old route. -/
theorem enroll_leaves_hub_behind : ∃ db a db',
    runAll Store.apply Op.body (fun _ _ => true) (Db.boot demoHub "") liveHome = some db ∧
      InSync db.toTables a ∧ Handled demoFresh movedHome db a db' a ∧ ¬ InSync db'.toTables a := by
  let call := Op.enrollNode 1 "token" "home" "home" "eth0" "pub" [⟨.ofBytes 192 168 2 0, 24⟩] 0
  have hrun : ((runAll Store.apply Op.body (fun _ _ => true) (Db.boot demoHub "") liveHome).bind fun db =>
      (runAll Store.apply Op.body (fun _ _ => true) db [call]).map fun _ =>
        (decide (db.enrollSecret = "" ∧ ∀ n ∈ db.nodes, n.isHub = false),
          (db.nodes.find? fun n => n.keys.pub = "pub").map fun r => (r.status, r.address.isSome, db.subnetsOf r.id))) =
      some (true, some (.active, true, [⟨.ofBytes 192 168 1 0, 24⟩])) := by decide +kernel
  obtain ⟨db, hdb, hrest⟩ := Option.bind_eq_some_iff.mp hrun
  obtain ⟨db', hdb', hall⟩ := Option.map_eq_some_iff.mp hrest
  obtain ⟨hplain, hfound⟩ := Prod.mk.inj hall
  obtain ⟨hsecret, hhubs⟩ := of_decide_eq_true hplain
  obtain ⟨r, hr, hfields⟩ := Option.map_eq_some_iff.mp hfound
  obtain ⟨hactive, hfields⟩ := Prod.mk.inj hfields
  obtain ⟨haddr, hsubnets⟩ := Prod.mk.inj hfields
  have hcall := run_of_runAll hdb'
  let a := Applied.of (Plan.of (snapshot db.toTables))
  have hsync : InSync db.toTables a := ⟨_, snapshot_spec _, rfl⟩
  have hhub : ∀ n ∈ db.nodes, n.isHub = true → n.keys.pub = "" :=
    fun n hn hh => absurd (hh.symm.trans (hhubs n hn)) (by simp)
  have hreshapes : Reshapes db.toTables "pub" 0 [⟨.ofBytes 192 168 2 0, 24⟩] := by
    refine ⟨r, anyRow_zero.trans hr, hactive, fun hnone => absurd haddr (by simp [hnone]), ?_⟩
    rw [hsubnets]
    decide
  exact ⟨db, a, db', hdb, hsync, .enroll (handleEnroll_movedHome hsecret) hcall,
    not_inSync_enrollNode db.wf (effect_of_run hcall) hhub (by decide) (by simp) hreshapes hsync⟩

/-- A node's first announcement. -/
theorem mutation_reaches_hub_first : ∃ a db', InSync (Db.boot demoHub "").toTables a ∧
    Handled demoFresh movedHome (Db.boot demoHub "") a db' a ∧ InSync db'.toTables a := by
  let call := Op.enrollNode 1 "token" "home" "home" "eth0" "pub" [⟨.ofBytes 192 168 2 0, 24⟩] 0
  have hrun : (runAll Store.apply Op.body (fun _ _ => true) (Db.boot demoHub "") [call]).isSome = true := by
    decide +kernel
  obtain ⟨db', hdb'⟩ := Option.isSome_iff_exists.mp hrun
  let a := Applied.of (Plan.of (snapshot (Db.boot demoHub "").toTables))
  have hsync : InSync (Db.boot demoHub "").toTables a := ⟨_, snapshot_spec _, rfl⟩
  have hhandled : Handled demoFresh movedHome (Db.boot demoHub "") a db' a :=
    .enroll (handleEnroll_movedHome rfl) (run_of_runAll hdb')
  refine ⟨a, db', hsync, hhandled, ?_⟩
  refine (mutation_reaches_hub (s := Sys.idle (Db.boot demoHub "")) Relation.ReflTransGen.refl hsync hhandled).mpr ?_
  rintro ⟨_, -, r, hr, -⟩
  exact absurd (anyRow_filter hr).1 List.not_mem_nil

end Example

end Service
end BeautyAwg
