import BeautyAwg.Store.GrantCalls
import BeautyAwg.Store.Correctness.Grants
import BeautyAwg.Awg.Correctness.NftMeaning

/-!
# `Store.Correctness.PortLimits`: a first port is a limit

A rule's ports are stored with zero as NULL, read back with NULL as zero, and printed with zero as no match.
The way there and back changes nothing (`toRule_ruleRow`), and where the first port is not zero the printed
lines are those ports of tcp and udp (`port_limit`). A rule without a first port is for all ports, as its
column says; a last port alone is stored and not printed (`lastPort_alone`).

## Contents
- **Stored and loaded.** `toRule_ruleRow`, `rules_loaded`.
- **Ports.** `within_of_permits`, `port_limit`.
-/

namespace BeautyAwg
namespace Store

open Netip Nft Awg Txn

/-- The packet is within the ports: tcp or udp, from the first to the last, or the first alone. -/
structure RuleDTO.Within (r : RuleDTO) (p : Packet) : Prop where
  proto : p.proto = .tcp ∨ p.proto = .udp
  first : r.portFrom ≤ p.dport.toNat
  last : r.portTo ≠ 0 → (p.dport.toNat : Int) ≤ r.portTo
  single : r.portTo = 0 → (p.dport.toNat : Int) = r.portFrom

/-- What `loadAllGrantRules` makes of the rule once it is stored. -/
def RuleDTO.loaded (r : RuleDTO) : Option GrantRule := (ruleRow 0 0 r).map toRule

/-- The forward chain accepts the packet on account of this rule of the grant. -/
def AcceptedFor (out : Snapshot) (g : Grant) (r : RuleDTO) (p : Packet) : Prop :=
  ∃ rule ∈ g.rules, r.loaded = some rule ∧ ∃ l ∈ (forwardChain out.hub out.nodes out.grants out.links).rules,
    l ∈ nftRuleLines g.clientAddr rule ∧ l.admits p

variable {db db' : Db} {clientId nodeId : Uuid} {rules : List RuleDTO} {out : Snapshot} {g : Grant} {row : GrantRow}

/-! ## Stored and loaded -/

theorem getD_nullIfZero (n : Int) : (nullIfZero n).getD 0 = n := by
  unfold nullIfZero
  split
  · rename_i hn
    exact hn.symm
  · rfl

/-- A stored rule is read back with the ports it was given, whichever grant it is of. -/
theorem toRule_ruleRow (clientId nodeId : Uuid) (r : RuleDTO) : (ruleRow clientId nodeId r).map toRule =
    (parsePrefix r.dest).map fun dest => ⟨dest, r.proto, r.portFrom, r.portTo⟩ := by
  rw [ruleRow, Option.map_map]
  cases parsePrefix r.dest with
  | none => rfl
  | some dest =>
    show some (⟨dest, r.proto, (nullIfZero r.portFrom).getD 0, (nullIfZero r.portTo).getD 0⟩ : GrantRule) = _
    rw [getD_nullIfZero, getD_nullIfZero, Option.map_some]

theorem forall₂_of_mapM {α β : Type} {f : α → Option β} {l : List α} {out : List β} (h : l.mapM f = some out) :
    List.Forall₂ (fun a b => f a = some b) l out := by
  induction l generalizing out with
  | nil =>
    obtain rfl := Option.some.inj h
    exact .nil
  | cons a l ih =>
    rw [List.mapM_cons] at h
    obtain ⟨b, hb, h⟩ := Option.bind_eq_some_iff.mp h
    obtain ⟨rest, hrest, h⟩ := Option.bind_eq_some_iff.mp h
    obtain rfl := Option.some.inj h
    exact .cons hb (ih hrest)

/-- After the call the rules of the grant are those it was given. -/
theorem rulesOf_setGrantRules (h : run apply (setGrantRules clientId nodeId rules) db = .ok ((), db')) :
    rules.mapM (ruleRow clientId nodeId) = some (db'.toTables.rulesOf clientId nodeId) := by
  have heff := effect_setGrantRules h
  generalize db'.toTables = t' at heff ⊢
  cases heff with
  | @ruled _ _ _ _ rows _ hrows =>
    have hdropped : (db.grantRules.filter fun r => r.key ≠ (clientId, nodeId)).filter
        (fun r => r.key = (clientId, nodeId)) = [] := by
      simp [List.filter_filter]
    have hkept : rows.filter (fun r => r.key = (clientId, nodeId)) = rows := by
      refine List.filter_eq_self.mpr fun row hrow => ?_
      obtain ⟨r, -, hr⟩ := (OnePer.of_forall₂ (forall₂_of_mapM hrows)).row hrow
      obtain ⟨dest, -, rfl⟩ := Option.map_eq_some_iff.mp hr
      exact decide_eq_true rfl
    rw [hrows, Tables.rulesOf, List.filter_append, hdropped, hkept, List.nil_append]

theorem loaded_eq (clientId nodeId : Uuid) (r : RuleDTO) : r.loaded = (ruleRow clientId nodeId r).map toRule := by
  rw [RuleDTO.loaded, toRule_ruleRow, toRule_ruleRow]

/-- The grant of a snapshot has the rules the call was given, loaded, in some order. -/
theorem rules_loaded (h : run apply (setGrantRules clientId nodeId rules) db = .ok ((), db'))
    (hcar : Carries db'.toTables row g) (hkey : row.key = (clientId, nodeId)) :
    OnePer (fun r rule => r.loaded = some rule) rules g.rules := by
  have hrows := forall₂_of_mapM (rulesOf_setGrantRules h)
  have hloaded : List.Forall₂ (fun r rule => r.loaded = some rule) rules
      ((db'.toTables.rulesOf clientId nodeId).map toRule) := by
    refine List.forall₂_map_right_iff.mpr (hrows.imp fun r row hrow => ?_)
    rw [loaded_eq clientId nodeId, hrow, Option.map_some]
  refine (OnePer.of_forall₂ hloaded).congr_items ?_
  rw [Tables.rulesOf, ← hkey]
  exact hcar.rules.symm

/-! ## Ports -/

/-- The ports of a stored rule are in order, the first above zero if there is one. -/
theorem ports_of_rule {portFrom portTo : Int} (h : PortsOk (nullIfZero portFrom) (nullIfZero portTo))
    (hfirst : portFrom ≠ 0) : 0 < portFrom ∧ (portTo ≠ 0 → portFrom ≤ portTo) := by
  obtain ⟨hfrom, -, horder⟩ := h
  have hsome : nullIfZero portFrom = some portFrom := if_neg hfirst
  have hpos := (hfrom portFrom hsome).1
  exact ⟨by omega, fun hlast => horder portFrom hsome portTo (if_neg hlast)⟩

theorem L4.named_cases {s : String} {proto : L4} (h : L4.named s = some proto) : proto = .tcp ∨ proto = .udp := by
  unfold L4.named at h
  split at h
  · exact Or.inl (Option.some.inj h).symm
  · split at h
    · exact Or.inr (Option.some.inj h).symm
    · exact absurd h (by simp)

/-- What a rule with a first port permits is within its ports. -/
theorem within_of_permits {r : RuleDTO} {dest : Prefix} {p : Packet}
    (hports : PortsOk (nullIfZero r.portFrom) (nullIfZero r.portTo)) (hfirst : r.portFrom ≠ 0)
    (h : GrantRule.Permits ⟨dest, r.proto, r.portFrom, r.portTo⟩ p) : r.Within p := by
  obtain ⟨hpos, horder⟩ := ports_of_rule hports hfirst
  obtain ⟨-, h⟩ := h
  rw [if_pos hpos] at h
  obtain ⟨⟨hlow, hhigh⟩, hproto⟩ := h
  refine ⟨?_, hlow, fun hlast => ?_, fun hlast => ?_⟩
  · rcases hproto with ⟨-, htcp⟩ | ⟨-, hnamed⟩
    · exact htcp
    · exact L4.named_cases hnamed
  · have := horder hlast
    simp only at hhigh
    omega
  · simp only [hlast] at hlow hhigh
    omega

/-- The lines of a rule stand in the chain, unless the grant is of the hub's node. -/
theorem mem_chain_of_rule {hub : Hub} {nodes : List Node} {grants : List Grant} {links : List NodeLink}
    {rule : GrantRule} {l : Rule} (hg : g ∈ grants) (hexit : g.isExit = false) (hrule : rule ∈ g.rules)
    (hl : l ∈ nftRuleLines g.clientAddr rule) : l ∈ (forwardChain hub nodes grants links).rules := by
  have hrules : g.rules ≠ [] := List.ne_nil_of_mem hrule
  have hline : l ∈ nftGrantRules hub (nftMesh hub nodes) g := by
    simp only [nftGrantRules, hexit, Bool.false_eq_true, if_false, if_neg hrules]
    exact List.mem_append_right _ (List.mem_flatMap.mpr ⟨rule, hrule, hl⟩)
  simp only [forwardChain, List.mem_cons, List.cons_append, List.mem_append, List.mem_flatMap]
  exact Or.inr (Or.inr (Or.inl ⟨g, hg, hline⟩))

/-- A first port is a limit, whatever grant of whatever state the rule is read from. -/
theorem within_of_accepted (hcar : Carries db.toTables row g) {r : RuleDTO} {p : Packet} (hfirst : r.portFrom ≠ 0)
    (h : AcceptedFor out g r p) : r.Within p := by
  obtain ⟨rule, hrule, hloaded, l, -, hl, hadm⟩ := h
  obtain ⟨stored, hstored, rfl⟩ := List.mem_map.mp (hcar.rules.mem_iff.mp hrule)
  -- the rule was stored, so its ports have passed the table's checks
  have hports := db.wf.rules_port_check stored (List.mem_filter.mp hstored).1
  have hpermits := (nftRuleLines_admits.mp ⟨l, hl, hadm⟩).2
  rw [loaded_eq 0 0, toRule_ruleRow] at hloaded
  obtain ⟨dest, -, hsame⟩ := Option.map_eq_some_iff.mp hloaded
  have hfrom : nullIfZero r.portFrom = stored.portFrom :=
    (congrArg nullIfZero (congrArg GrantRule.portFrom hsame)).trans (nullIfZero_getD hports.1)
  have hto : nullIfZero r.portTo = stored.portTo :=
    (congrArg nullIfZero (congrArg GrantRule.portTo hsame)).trans (nullIfZero_getD hports.2.1)
  rw [← hsame] at hpermits
  exact within_of_permits (by rw [hfrom, hto]; exact hports) hfirst hpermits

/-- **A port limit is a limit.** In every snapshot after the call, a grant of the row has the rules of the call, and
    what is accepted on account of one with a first port is within its ports. -/
theorem port_limit (h : run apply (setGrantRules clientId nodeId rules) db = .ok ((), db'))
    (hout : SnapshotOf db'.toTables out) (hg : g ∈ out.grants) :
    ∃ row ∈ db'.grants, Carries db'.toTables row g ∧ (row.key = (clientId, nodeId) →
      OnePer (fun r rule => r.loaded = some rule) rules g.rules ∧
        ∀ r ∈ rules, r.portFrom ≠ 0 → ∀ p, AcceptedFor out g r p → r.Within p) := by
  obtain ⟨row, hrow, hcar⟩ := (snapshot_grants hout).row hg
  exact ⟨row, (List.mem_filter.mp hrow).1, hcar, fun hkey =>
    ⟨rules_loaded h hcar hkey, fun r _ hfirst p hacc => within_of_accepted hcar hfirst hacc⟩⟩

/-! ## A device at a home server -/

/-- A home server and a device that is granted it. -/
def homeRun : List Op :=
  [.createNode 2 "home" "eth0" [⟨.ofBytes 192 168 1 0, 24⟩] ⟨"priv2", "pub2"⟩ "",
    .createClient 3 "phone" "" ⟨"priv3", "pub3"⟩ "", .setGrant 3 2]

/-- The device's grant once it is limited by the rules. -/
theorem home_limited (rules : List RuleDTO)
    (hok : ((runAll apply Op.body (fun _ _ => true) (Db.boot demoHub "") homeRun).any fun db =>
      (runAll apply Op.body (fun _ _ => true) db [.setGrantRules 3 2 rules]).any fun db' =>
        db'.grants = [⟨3, 2, false⟩] ∧ (snapshot db'.toTables).grants.any fun g =>
          g.clientAddr = .ofBytes 10 8 0 3 ∧ !g.isExit ∧ !g.nodeExit) = true) :
    ∃ db db' g, run apply (setGrantRules 3 2 rules) db = .ok ((), db') ∧ db'.grants = [⟨3, 2, false⟩] ∧
      g ∈ (snapshot db'.toTables).grants ∧ g.clientAddr = .ofBytes 10 8 0 3 ∧ g.isExit = false ∧
      g.nodeExit = false := by
  obtain ⟨db, -, hok⟩ := (Option.any_eq_true _ _).mp hok
  obtain ⟨db', hdb', hok⟩ := (Option.any_eq_true _ _).mp hok
  simp only [decide_eq_true_eq, List.any_eq_true, Bool.not_eq_true'] at hok
  obtain ⟨hgrants, g, hg, haddr, hexit, hnode⟩ := hok
  have hrun : run apply (Op.setGrantRules 3 2 rules).body db = .ok ((), db') := run_of_runAll hdb'
  exact ⟨db, db', g, hrun, hgrants, hg, haddr, hexit, hnode⟩

/-- A grant of one port, with its packets accepted by TCP or UDP only. -/
theorem port_limit_home : ∃ db : Db, ∃ g ∈ (snapshot db.toTables).grants, g.nodeExit = false ∧
    ∀ p, AcceptedFor (snapshot db.toTables) g ⟨"192.168.1.7/32", "tcp", 443, 0⟩ p →
      p.proto = .tcp ∨ p.proto = .udp := by
  obtain ⟨db, db', g, hrun, hgrants, hg, -, -, hnode⟩ :=
    home_limited [⟨"192.168.1.7/32", "tcp", 443, 0⟩] (by decide +kernel)
  obtain ⟨row, hrow, -, hlimit⟩ := port_limit hrun (snapshot_spec _) hg
  rw [hgrants, List.mem_singleton] at hrow
  subst hrow
  exact ⟨db', g, hg, hnode, fun p hacc => ((hlimit rfl).2 _ List.mem_cons_self (by decide) p hacc).proto⟩

/-- A last port alone: the rule is for every port. -/
theorem lastPort_alone : ∃ db db' g row r p, run apply (setGrantRules 3 2 [r]) db = .ok ((), db') ∧
    g ∈ (snapshot db'.toTables).grants ∧ row ∈ db'.grants ∧ Carries db'.toTables row g ∧ row.key = (3, 2) ∧
      g.isExit = false ∧ g.nodeExit = false ∧ r.portTo ≠ 0 ∧ p.ct = .new ∧
        AcceptedFor (snapshot db'.toTables) g r p ∧ ¬ r.Within p := by
  obtain ⟨db, db', g, hrun, hgrants, hg, haddr, hexit, hnode⟩ :=
    home_limited [⟨"192.168.1.7/32", "tcp", 0, 443⟩] (by decide +kernel)
  obtain ⟨row, hrow, hcar⟩ := (snapshot_grants (snapshot_spec db'.toTables)).row hg
  have hmem : row ∈ db'.grants := (List.mem_filter.mp hrow).1
  have hkey : row.key = (3, 2) := by
    rw [hgrants, List.mem_singleton] at hmem
    rw [hmem]
    rfl
  obtain ⟨rule, hrule, hloaded⟩ := (rules_loaded hrun hcar hkey).item List.mem_cons_self
  have hrule' : rule = ⟨⟨.ofBytes 192 168 1 7, 32⟩, "tcp", 0, 443⟩ :=
    Option.some.inj (hloaded.symm.trans (by decide +kernel))
  -- port 8080, which is above the last port of the rule
  let p : Packet := ⟨BitVec.ofNat 32 0x0a080003, BitVec.ofNat 32 0xc0a80107, "", .tcp, 8080, .new, false, 0⟩
  have hpermits : g.clientAddr = .v4 p.src ∧ rule.Permits p := by
    rw [hrule']
    exact ⟨haddr, by decide, Or.inr rfl⟩
  obtain ⟨l, hl, hadm⟩ := nftRuleLines_admits.mpr hpermits
  refine ⟨db, db', g, row, _, p, hrun, hg, hmem, hcar, hkey, hexit, hnode, by decide, rfl,
    ⟨rule, hrule, hloaded, l, mem_chain_of_rule hg hexit hrule hl, hl, hadm⟩, fun hwithin => ?_⟩
  exact absurd (hwithin.last (by decide)) (by decide)

end Store
end BeautyAwg
