import BeautyAwg.Store.Commits
import BeautyAwg.Store.Effect

/-!
# `Store.Correctness.LinkOverlap`: linked sites do not overlap

`setNodeLink` refuses two nodes whose subnets overlap. The check and the insert are two statements, and
`enrollNode` replaces the subnets of a linked node without a look at its links. Where no commit gives a node a
subnet that overlaps the other end of one of its links, the check holds for good (`linked_sites_apart`).

## Contents
- **The invariant.** `SitesApart`, `LinksApart`.
- **The condition.** `Tied`, `NewIds`, `SubnetsFit`.
- **The protocol.** `linkProtocol`, `apart_of_commit`.
- **Runs.** `linked_sites_apart`, and `enrollNode_overlaps_linked`.
-/

namespace BeautyAwg
namespace Store

open Netip Awg Txn

/-! ## The invariant -/

/-- Two nodes that may be linked: neither is the hub's, and no subnet of the one overlaps one of the other. -/
structure SitesApart (t : Tables) (src dst : Uuid) : Prop where
  ne : src ≠ dst
  notHub : ∀ n ∈ t.nodes, n.id = src ∨ n.id = dst → n.isHub = false
  disjoint : ∀ a ∈ t.subnetsOf src, ∀ b ∈ t.subnetsOf dst, a.overlaps b = false

/-- The ends of every link are sites that may be linked. -/
def LinksApart (t : Tables) : Prop := ∀ l ∈ t.links, SitesApart t l.src l.dst

/-! ## The condition -/

variable {s : Server} {c c' : Db} {op : Op} {n : Nat} {held : List Lock} {pend : List Write} {src dst : Uuid}

/-- The two nodes are linked, or a `setNodeLink` that is past its check is about to link them. -/
def Tied (s : Server) (src dst : Uuid) : Prop :=
  ⟨src, dst⟩ ∈ s.committed.links ∨
    ∃ i t, s.sessions i = some t ∧ t.op = .setNodeLink src dst ∧ 1 ≤ t.done

/-- New rows are inserted under ids that no tied node has. -/
def NewIds (s : Server) : Prop :=
  ∀ i t, s.sessions i = some t → t.rest = .ret () → ∀ m, Write.insertNode m ∈ t.pending →
    ∀ src dst, Tied s src dst → m.id ≠ src ∧ m.id ≠ dst

/-- No transaction that is about to commit gives a node a subnet that overlaps the other end of a link. -/
def SubnetsFit (s : Server) : Prop :=
  ∀ i t, s.sessions i = some t → t.rest = .ret () → ∀ src dst, Tied s src dst → ∀ a b,
    Gains t.pending src a ∧ (b ∈ s.committed.subnetsOf dst ∨ Gains t.pending dst b) ∨
      a ∈ s.committed.subnetsOf src ∧ Gains t.pending dst b → a.overlaps b = false

/-! ## The protocol -/

/-- Past its check, a `setNodeLink` relies on its nodes staying apart. -/
def linkProtocol : Protocol Op Db Lock where
  good db := LinksApart db.toTables
  rely op n _ c c' := 1 ≤ n → ∀ src dst, op = .setNodeLink src dst → SitesApart c.toTables src dst →
    SitesApart c'.toTables src dst
  compat _ _ _ _ := True
  rely_refl _ _ _ _ := fun _ _ _ _ h => h
  rely_trans _ _ _ _ _ _ h₁ h₂ := fun hn src dst he h => h₂ hn src dst he (h₁ hn src dst he h)

/-- At its commit a session has made writes of its call, and the nodes it is to link are apart. -/
def LinkReady (op : Op) (n : Nat) (_ : List Lock) (pend : List Write) (c : Db) : Prop :=
  (∀ w ∈ pend, op.Writes w) ∧ ∀ src dst, op = .setNodeLink src dst → 1 ≤ n ∧ SitesApart c.toTables src dst

/-- A commit that fits keeps tied nodes apart. -/
theorem apart_of_commit (hws : ∀ w ∈ pend, op.Writes w) (h : applyAll apply pend c = .ok c')
    (hnew : ∀ m, Write.insertNode m ∈ pend → m.id ≠ src ∧ m.id ≠ dst)
    (hfit : ∀ a b, Gains pend src a ∧ (b ∈ c.subnetsOf dst ∨ Gains pend dst b) ∨
      a ∈ c.subnetsOf src ∧ Gains pend dst b → a.overlaps b = false)
    (hapart : SitesApart c.toTables src dst) : SitesApart c'.toTables src dst := by
  refine ⟨hapart.ne, fun n hn hid => ?_, fun a ha b hb => ?_⟩
  · rcases node_of_commit hws h hn with ⟨m, hm, hsame⟩ | ⟨m, hm, hsame⟩
    · rw [← hsame.2.1]
      exact hapart.notHub m hm (hsame.1 ▸ hid)
    · obtain ⟨hsrc, hdst⟩ := hnew m hm
      exact absurd (hsame.1 ▸ hid) (not_or.mpr ⟨hsrc, hdst⟩)
  · rw [mem_subnetsOf] at ha hb
    rcases subnet_of_commit h ha with hold | hgain <;> rcases subnet_of_commit h hb with hold' | hgain'
    · exact hapart.disjoint a (mem_subnetsOf.mpr hold) b (mem_subnetsOf.mpr hold')
    · exact hfit a b (.inr ⟨mem_subnetsOf.mpr hold, hgain'⟩)
    · exact hfit a b (.inl ⟨hgain, .inl (mem_subnetsOf.mpr hold')⟩)
    · exact hfit a b (.inl ⟨hgain, .inr hgain'⟩)

/-- What the check of `setNodeLink` has seen. -/
theorem apart_of_check {src' dst' : List Prefix} (hne : src ≠ dst) (hsrc : nodeMeta c src = some (false, src'))
    (hdst : nodeMeta c dst = some (false, dst')) (hnone : overlapping src' dst' = none) :
    SitesApart c.toTables src dst := by
  have hrow : ∀ {id : Uuid} {lans : List Prefix}, nodeMeta c id = some (false, lans) →
      lans = c.subnetsOf id ∧ ∀ n ∈ c.nodes, n.id = id → n.isHub = false := by
    intro id lans hmeta
    obtain ⟨m, hm, he⟩ := Option.map_eq_some_iff.mp hmeta
    obtain ⟨hhub, hlans⟩ := Prod.mk.inj he
    obtain ⟨hid, -⟩ : m.id = id ∧ m.status = .active := by simpa using List.find?_some hm
    refine ⟨hlans.symm, fun n hn hn_id => ?_⟩
    rw [node_eq_of_id c.wf hn (List.mem_of_find?_eq_some hm) (hn_id.trans hid.symm), hhub]
  obtain ⟨rfl, hsrc_hub⟩ := hrow hsrc
  obtain ⟨rfl, hdst_hub⟩ := hrow hdst
  refine ⟨hne, fun n hn hid => hid.elim (hsrc_hub n hn) (hdst_hub n hn), fun a ha b hb => ?_⟩
  have hpair : (a, b) ∈ (c.subnetsOf src).flatMap fun a => (c.subnetsOf dst).map fun b => (a, b) :=
    List.mem_flatMap.mpr ⟨a, ha, List.mem_map_of_mem hb⟩
  simpa using List.find?_eq_none.mp hnone _ hpair

theorem wp_setNodeLink :
    linkProtocol.Wp apply (.setNodeLink src dst) (setNodeLink src dst)
      (linkProtocol.AtCommit LinkReady (.setNodeLink src dst)) 0 [] [] c := by
  unfold setNodeLink
  split
  · trivial
  · rename_i hne
    refine Protocol.wp_bind.mpr (Protocol.wp_read fun c₁ v _ _ hv => ?_)
    obtain rfl := Except.ok.inj hv
    split
    · rename_i srcHub src' dstHub dst' hfound
      obtain ⟨hsrc, hdst⟩ := Prod.mk.inj hfound
      split
      · trivial
      · rename_i hhub
        obtain ⟨rfl, rfl⟩ : srcHub = false ∧ dstHub = false := by simpa using hhub
        split
        · trivial
        · split
          · trivial
          · rename_i hnone
            have hapart := apart_of_check hne hsrc hdst hnone
            refine Protocol.wp_write fun c₂ hr₂ _ c₃ hr₃ _ => ⟨?_, ?_⟩
            · intro w hw
              rw [List.mem_singleton.mp hw]
              exact .setNodeLink
            · rintro _ _ ⟨rfl, rfl⟩
              exact ⟨by omega, hr₃ (by omega) _ _ rfl (hr₂ (by omega) _ _ rfl hapart)⟩
    · trivial

theorem body_wp_link (op : Op) (c : Db) :
    linkProtocol.Wp apply op op.body (linkProtocol.AtCommit LinkReady op) 0 [] [] c := by
  by_cases hop : ∃ src dst, op = .setNodeLink src dst
  · obtain ⟨src, dst, rfl⟩ := hop
    exact wp_setNodeLink
  · refine Protocol.wp_mono ?_ (Protocol.wp_writes_of_allWrites (fun _ h => absurd h List.not_mem_nil)
      (body_allWrites op))
    exact fun _ _ _ _ _ h c' hr hg => ⟨h c' hr hg, fun src dst he => absurd ⟨src, dst, he⟩ hop⟩

/-- Every commit that fits keeps the linked nodes apart, and those that are about to be linked. -/
theorem commits_link (hnew : NewIds s) (hfit : SubnetsFit s) (hgood : LinksApart s.committed.toTables) :
    linkProtocol.Commits apply LinkReady s := by
  intro i t held c ht hret ⟨hws, hready⟩ hc
  have hkeep : ∀ src dst, Tied s src dst → SitesApart s.committed.toTables src dst → SitesApart c.toTables src dst :=
    fun src dst htied => apart_of_commit hws hc (fun m hm => hnew i t ht hret m hm src dst htied)
      (hfit i t ht hret src dst htied)
  constructor
  · intro l hl
    rcases link_of_commit hc hl with hold | hins
    · exact hkeep l.src l.dst (.inl hold) (hgood l hold)
    · have hw := hws _ hins
      cases hop : t.op with
      | setNodeLink src dst =>
        rw [hop] at hw
        cases hw
        obtain ⟨hn, hsrc⟩ := hready src dst hop
        exact hkeep src dst (.inr ⟨i, t, ht, hop, hn⟩) hsrc
      | _ => rw [hop] at hw; cases hw
  · intro j t' held' _ ht' _ hn src dst he hsrc
    exact hkeep src dst (.inr ⟨j, t', ht', he, hn⟩) hsrc

/-! ## Runs -/

/-- **Linked sites do not overlap**, in every committed state of every interleaving in which no commit gives a
    node a subnet that overlaps the other end of a link it has or is about to get. -/
theorem linked_sites_apart (hc : LinksApart c.toTables)
    (h : StepsIn apply Op.body (fun s => NewIds s ∧ SubnetsFit s) (Sys.idle c) s) :
    LinksApart s.committed.toTables :=
  Protocol.good_of_steps_where (π := linkProtocol) (R := LinkReady) (fun op c _ => body_wp_link op c)
    (fun _ hP hgood => commits_link hP.1 hP.2 hgood) hc h

/-- Two home servers enrol and are linked. -/
def linkedHomes : List Op :=
  [.enrollNode 1 "token1" "home" "home" "eth0" "pub1" [⟨.ofBytes 192 168 1 0, 24⟩] 0, .approveNode 1,
    .enrollNode 2 "token2" "office" "office" "eth0" "pub2" [⟨.ofBytes 192 168 2 0, 24⟩] 0, .approveNode 2,
    .setNodeLink 1 2]

/-- **The defect.** One of them announces itself again, with a subnet of the other. -/
theorem enrollNode_overlaps_linked : ∃ s,
    Steps apply Op.body (Sys.idle (Db.boot demoHub "")) s ∧ ¬ LinksApart s.committed.toTables := by
  have hrun : (runAll apply Op.body (fun _ _ => true) (Db.boot demoHub "") (linkedHomes ++
      [.enrollNode 3 "token3" "office" "office" "eth0" "pub2" [⟨.ofBytes 192 168 0 0, 16⟩] 0])).map
      (fun db => (db.links, db.subnetsOf 1, db.subnetsOf 2)) =
      some ([⟨1, 2⟩], [⟨.ofBytes 192 168 1 0, 24⟩], [⟨.ofBytes 192 168 0 0, 16⟩]) := by decide +kernel
  obtain ⟨db, hdb, hrows⟩ := Option.map_eq_some_iff.mp hrun
  obtain ⟨hlinks, hsubnets⟩ := Prod.mk.inj hrows
  obtain ⟨hsrc, hdst⟩ := Prod.mk.inj hsubnets
  refine ⟨Sys.idle db, stepsIn_of_calls (fun _ => trivial) (fun _ => trivial) (calls_of_runAll hdb), ?_⟩
  intro (hapart : LinksApart db.toTables)
  have hmem : (⟨1, 2⟩ : LinkRow) ∈ db.links := by rw [hlinks]; exact List.mem_singleton_self _
  have ha : (⟨.ofBytes 192 168 1 0, 24⟩ : Prefix) ∈ db.subnetsOf 1 := by rw [hsrc]; exact List.mem_singleton_self _
  have hb : (⟨.ofBytes 192 168 0 0, 16⟩ : Prefix) ∈ db.subnetsOf 2 := by rw [hdst]; exact List.mem_singleton_self _
  exact absurd ((hapart _ hmem).disjoint _ ha _ hb) (by decide)

/-- The call only links. -/
def Op.links : Op → Bool
  | .setNodeLink _ _ => true
  | _ => false

/-- A call that runs alone and either only links or meets no link. -/
theorem fits_of_solo {i : Nat} {rest : Tx Unit} (hs : Solo s i ⟨op, n, pend, rest⟩) (hws : ∀ w ∈ pend, op.Writes w)
    (hok : op.links = true ∨ s.committed.links = []) : NewIds s ∧ SubnetsFit s := by
  have hone : ∀ j t, s.sessions j = some t → t = ⟨op, n, pend, rest⟩ := by
    intro j t hj
    by_cases hji : j = i
    · subst hji
      exact Option.some.inj (hj.symm.trans hs.here)
    · exact absurd (hj.symm.trans (hs.alone j hji)) (by simp)
  by_cases hlinks : op.links = true
  · -- nothing but a link is written
    have hwrite : ∀ w ∈ pend, ∃ l, w = .insertLink l := by
      intro w hw
      have := hws w hw
      cases this <;> first | exact ⟨_, rfl⟩ | exact absurd hlinks (by simp [Op.links])
    have hno : ∀ id p, ¬ Gains pend id p := fun id p hp => by
      obtain ⟨l, hl⟩ := hwrite _ hp
      exact absurd hl (by simp)
    constructor
    · intro j t hj _ m hm
      rw [hone j t hj] at hm
      obtain ⟨l, hl⟩ := hwrite _ hm
      exact absurd hl (by simp)
    · intro j t hj _ src dst _ a b hgain
      rw [hone j t hj] at hgain
      exact hgain.elim (fun h => absurd h.1 (hno _ _)) fun h => absurd h.2 (hno _ _)
  · have hfree : ∀ src dst, ¬ Tied s src dst := by
      rintro src dst (hmem | ⟨j, t, hj, hop, -⟩)
      · rw [hok.resolve_left hlinks] at hmem
        exact absurd hmem List.not_mem_nil
      · have hop' : op = .setNodeLink src dst := (congrArg Session.op (hone j t hj)).symm.trans hop
        exact hlinks (by rw [hop']; rfl)
    exact ⟨fun _ _ _ _ _ _ src dst htied => absurd htied (hfree src dst),
      fun _ _ _ _ src dst htied => absurd htied (hfree src dst)⟩

/-- The same two homes, linked in both directions. -/
theorem linked_sites_apart_homes : ∃ db,
    runAll apply Op.body (fun op db => op.links ∨ db.links = []) (Db.boot demoHub "")
      (linkedHomes ++ [.setNodeLink 2 1]) = some db ∧
    LinksApart db.toTables := by
  have hrun : (runAll apply Op.body (fun op db => op.links ∨ db.links = []) (Db.boot demoHub "")
      (linkedHomes ++ [.setNodeLink 2 1])).isSome = true := by decide +kernel
  obtain ⟨db, hdb⟩ := Option.isSome_iff_exists.mp hrun
  refine ⟨db, hdb, linked_sites_apart (s := Sys.idle db) (c := Db.boot demoHub "")
    (fun l hl => absurd hl List.not_mem_nil) ?_⟩
  refine stepsIn_of_calls_where (W := Op.Writes) ?_ (fun hok hs hws => ?_) body_allWrites (calls_of_runAll hdb)
  · exact fun c => ⟨fun j t hj => absurd hj (by simp [Sys.idle]), fun j t hj => absurd hj (by simp [Sys.idle])⟩
  · exact fits_of_solo hs hws (of_decide_eq_true hok)

end Store
end BeautyAwg
