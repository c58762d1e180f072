import BeautyAwg.Lib.Netip

/-!
# `Nft`: a fragment of nftables

The rules a filter or nat chain is made of, their concrete syntax, and what a chain decides about an
IPv4 packet: rules are tried in order, a rule whose matches all hold runs its statement, the first
statement with a verdict decides, and a packet no rule decides gets the chain's policy.

## Contents
- **Syntax.** `Operand`, `Match`, `Stmt`, `Rule`, `Chain`, `Table`, each with its `text`.
- **Semantics.** `Match.holds`, `Rule.verdict`, `Chain.accepts`; `Chain.statement` of a nat chain.
- **Loading.** `Rule.loads`: the checks `nft -f` makes before it replaces a ruleset, those of operands and targets
  (`Rule.reads`) and those of interface names and redirect ports (`Rule.fits`).
- `Chain.accepts_iff`: under policy drop, acceptance is the existence of a matching accept rule.
-/

namespace Nft

open Netip

/-! ## Packets -/

/-- Transport protocol of a packet. -/
inductive L4 where
  | tcp
  | udp
  | other (n : Nat)
  deriving DecidableEq, Repr

/-- The protocol a rule names, if the name is one this fragment knows. -/
def L4.named (s : String) : Option L4 :=
  if s = "tcp" then some .tcp else if s = "udp" then some .udp else none

/-- Connection-tracking state. -/
inductive CtState where
  | new
  | established
  | related
  | untracked
  | invalid
  deriving DecidableEq, Repr

/-- The parts of an IPv4 packet in the forward path that a rule can look at. -/
structure Packet where
  src : BitVec 32
  dst : BitVec 32
  oif : String
  proto : L4
  dport : BitVec 16
  ct : CtState
  syn : Bool := false
  maxseg : Nat := 0
  deriving DecidableEq, Repr

/-! ## Syntax -/

/-- What an `ip saddr` or `ip daddr` is compared with: one address or a prefix. -/
inductive Operand where
  | addr (a : Addr)
  | net (p : Prefix)
  deriving DecidableEq, Repr

/-- What a rule can ask of a packet. -/
inductive Match where
  | saddr (o : Operand)
  | daddr (o : Operand)
  | daddrNotIn (ps : List Prefix)
  | oifname (name : String)
  | oifnameNe (name : String)
  | ctState (states : List CtState)
  | tcpSyn
  | maxsegAbove (n : Nat)
  | dport (proto : String) (lo : Int) (hi : Option Int)
  | ipProtocol (proto : String)
  deriving DecidableEq, Repr

/-- What a rule does with the packets it matches. -/
inductive Stmt where
  | accept
  | setMaxseg (n : Nat)
  | dnat (target : String)
  | redirect (port : Int)
  | masquerade
  deriving DecidableEq, Repr

/-- A rule: everything it asks for, and what it then does. -/
structure Rule where
  matchers : List Match
  stmt : Stmt
  deriving DecidableEq, Repr

/-- What becomes of a packet. -/
inductive Policy where
  | accept
  | drop
  deriving DecidableEq, Repr

/-- A base chain: its name, its `type … hook … priority …` line, its policy and its rules. -/
structure Chain where
  name : String
  hook : String
  policy : Policy
  rules : List Rule
  deriving DecidableEq, Repr

/-- A table with its chains. -/
structure Table where
  family : String
  name : String
  chains : List Chain
  deriving DecidableEq, Repr

/-! ### Concrete syntax -/

/-- The escapes of Go's `%q` for ASCII text. -/
def escape (s : String) : String :=
  String.join (s.toList.map fun c =>
    if c = '"' then "\\\"" else if c = '\\' then "\\\\"
    else if c = '\n' then "\\n" else if c = '\t' then "\\t" else if c = '\r' then "\\r"
    else c.toString)

/-- A quoted string. -/
def quote (s : String) : String := "\"" ++ escape s ++ "\""

/-- An address or a prefix, as it is written. -/
def Operand.text : Operand → String
  | addr a => a.text
  | net p => p.text

/-- The state of a connection, as it is written. -/
def CtState.text : CtState → String
  | new => "new"
  | established => "established"
  | related => "related"
  | untracked => "untracked"
  | invalid => "invalid"

/-- What a rule asks for, as it is written. -/
def Match.text : Match → String
  | saddr o => "ip saddr " ++ o.text
  | daddr o => "ip daddr " ++ o.text
  | daddrNotIn ps => "ip daddr != \x7b " ++ ", ".intercalate (ps.map Prefix.text) ++ " \x7d"
  | oifname s => "oifname " ++ quote s
  | oifnameNe s => "oifname != " ++ quote s
  | ctState ss => "ct state " ++ ",".intercalate (ss.map CtState.text)
  | tcpSyn => "tcp flags syn"
  | maxsegAbove n => "tcp option maxseg size > " ++ toString n
  | dport proto lo none => proto ++ " dport " ++ toString lo
  | dport proto lo (some hi) => proto ++ " dport " ++ toString lo ++ "-" ++ toString hi
  | ipProtocol proto => "ip protocol " ++ proto

/-- What a rule does, as it is written. -/
def Stmt.text : Stmt → String
  | accept => "accept"
  | setMaxseg n => "tcp option maxseg size set " ++ toString n
  | dnat target => "dnat to " ++ target
  | redirect port => "redirect to :" ++ toString port
  | masquerade => "masquerade"

/-- A rule on one line. -/
def Rule.text (r : Rule) : String := " ".intercalate (r.matchers.map Match.text ++ [r.stmt.text])

/-- What becomes of a packet, as it is written. -/
def Policy.text : Policy → String
  | accept => "accept"
  | drop => "drop"

/-- A chain as a block of lines. -/
def Chain.text (c : Chain) : String :=
  "  chain " ++ c.name ++ " \x7b\n    " ++ c.hook ++ "; policy " ++ c.policy.text ++ ";\n"
    ++ String.join (c.rules.map fun r => "    " ++ r.text ++ "\n") ++ "  \x7d\n"

/-- A table, preceded by the `add` and `flush` lines that make loading it idempotent. -/
def Table.text (t : Table) : String :=
  let id := t.family ++ " " ++ t.name
  "add table " ++ id ++ "\nflush table " ++ id ++ "\ntable " ++ id ++ " \x7b\n"
    ++ String.join (t.chains.map Chain.text) ++ "\x7d\n"

/-! ## Semantics -/

/-- The address is the operand's, or lies in it. -/
def Operand.covers (o : Operand) (y : BitVec 32) : Bool :=
  match o with
  | addr a => a == .v4 y
  | net p => p.contains (.v4 y)

/-- The packet is what is asked for. -/
def Match.holds (p : Packet) : Match → Bool
  | saddr o => o.covers p.src
  | daddr o => o.covers p.dst
  | daddrNotIn ps => ps.all fun q => !q.contains (.v4 p.dst)
  | oifname s => p.oif == s
  | oifnameNe s => p.oif != s
  | ctState ss => ss.contains p.ct
  | tcpSyn => p.proto == .tcp && p.syn
  | maxsegAbove n => decide (n < p.maxseg)
  | dport proto lo hi =>
      L4.named proto == some p.proto && decide (lo ≤ p.dport.toNat)
        && decide ((p.dport.toNat : Int) ≤ hi.getD lo)
  | ipProtocol proto => L4.named proto == some p.proto

/-- The verdict of a statement; a statement that only rewrites the packet has none. -/
def Stmt.verdict : Stmt → Option Policy
  | setMaxseg _ => none
  | _ => some .accept

/-- What the rule makes of the packet, if it decides over it. -/
def Rule.verdict (p : Packet) (r : Rule) : Option Policy :=
  if r.matchers.all (Match.holds p) then r.stmt.verdict else none

/-- The first rule with a verdict decides, else the policy. -/
def Chain.accepts (c : Chain) (p : Packet) : Bool :=
  (c.rules.findSome? (Rule.verdict p)).getD c.policy == .accept

/-- The statement of the first rule that matches: what a nat chain does with a packet. -/
def Chain.statement (c : Chain) (p : Packet) : Option Stmt :=
  (c.rules.find? fun r => r.matchers.all (Match.holds p)).map Rule.stmt

/-! ## Loading -/

/-- The operand is of IPv4. -/
def Operand.is4 : Operand → Bool
  | addr a => a.is4
  | net p => p.is4

/-- `nft` takes only IPv4 operands in `ip` matches and 16-bit ports. -/
def Match.reads : Match → Bool
  | saddr o => o.is4
  | daddr o => o.is4
  | daddrNotIn ps => ps.all Prefix.is4
  | dport proto lo hi =>
      (L4.named proto).isSome && decide (0 ≤ lo ∧ lo ≤ 65535) && (hi.all fun h => decide (lo ≤ h ∧ h ≤ 65535))
  | ipProtocol proto => (L4.named proto).isSome
  | _ => true

/-- What is quoted is the name of an interface: there is one, no quote of its own ends it early, it is not the wildcard
    alone, and it has at most 15 bytes. -/
def ifnameFits (s : String) : Bool := s ≠ "" ∧ '"' ∉ s.toList ∧ s ≠ "*" ∧ (escape s).utf8ByteSize ≤ 15

/-- The interface's name is one that the kernel has room for. -/
def Match.fits : Match → Bool
  | oifname s | oifnameNe s => ifnameFits s
  | _ => true

/-- A `dnat` target is an IPv4 address with an optional port. -/
def Stmt.reads : Stmt → Bool
  | dnat target =>
      match target.toList.splitOn ':' with
      | [a] => (parseAddr4 a).isSome
      | [a, port] => (parseAddr4 a).isSome && (parseDecimal 65535 port).isSome
      | _ => false
  | _ => true

/-- A `redirect` goes to a 16-bit port. -/
def Stmt.fits : Stmt → Bool
  | redirect port => 0 ≤ port ∧ port ≤ 65535
  | _ => true

/-- The operands, ports and targets of the rule can be read. -/
def Rule.reads (r : Rule) : Bool := r.matchers.all Match.reads && r.stmt.reads

/-- Its interface names and its redirect port can be. -/
def Rule.fits (r : Rule) : Bool := r.matchers.all Match.fits && r.stmt.fits

/-- `nft` takes the rule. -/
def Rule.loads (r : Rule) : Bool := r.reads && r.fits

/-- Every rule of the chain can be read. -/
def Chain.reads (c : Chain) : Bool := c.rules.all Rule.reads

/-- Every rule of the chain is taken. -/
def Chain.loads (c : Chain) : Bool := c.rules.all Rule.loads

/-- Every chain of the table can be read. -/
def Table.reads (t : Table) : Bool := t.chains.all Chain.reads

/-- Every chain of the table is taken. -/
def Table.loads (t : Table) : Bool := t.chains.all Chain.loads

/-- A chain is taken where each rule can be read and fits. -/
theorem Chain.loads_iff {c : Chain} : c.loads = true ↔ c.reads = true ∧ ∀ r ∈ c.rules, r.fits = true := by
  simp only [Chain.loads, Chain.reads, List.all_eq_true, Rule.loads, Bool.and_eq_true]
  exact ⟨fun h => ⟨fun r hr => (h r hr).1, fun r hr => (h r hr).2⟩, fun h r hr => ⟨h.1 r hr, h.2 r hr⟩⟩

/-! ## Accept chains -/

/-- The rule accepts the packet: every matcher holds and the statement is `accept`. -/
def Rule.admits (r : Rule) (p : Packet) : Prop :=
  r.stmt = .accept ∧ ∀ m ∈ r.matchers, m.holds p = true

/-- A chain whose statements are `accept` or rewrite only. -/
def Chain.Filters (c : Chain) : Prop :=
  c.policy = .drop ∧ ∀ r ∈ c.rules, r.stmt = .accept ∨ r.stmt.verdict = none

/-- A rule that accepts or passes on gives a verdict exactly when it accepts the packet. -/
theorem Rule.verdict_eq_some {r : Rule} {p : Packet} {v : Policy}
    (hr : r.stmt = .accept ∨ r.stmt.verdict = none) :
    r.verdict p = some v ↔ v = .accept ∧ r.admits p := by
  unfold Rule.verdict Rule.admits
  rw [← List.all_eq_true]
  rcases hr with h | h
  · by_cases hm : r.matchers.all (Match.holds p) = true <;> simp [hm, h, Stmt.verdict, eq_comm]
  · have hne : r.stmt ≠ .accept := fun he => by simp [he, Stmt.verdict] at h
    simp [h, hne]

/-- **Acceptance under policy drop.** Some accept rule matches the packet. -/
theorem Chain.accepts_iff {c : Chain} (hc : c.Filters) (p : Packet) :
    c.accepts p = true ↔ ∃ r ∈ c.rules, r.admits p := by
  obtain ⟨hpol, hr⟩ := hc
  unfold Chain.accepts
  cases hv : c.rules.findSome? (Rule.verdict p) with
  | none =>
      rw [List.findSome?_eq_none_iff] at hv
      simp only [Option.getD_none, hpol, beq_iff_eq, reduceCtorEq, false_iff, not_exists, not_and]
      intro r hmem hadm
      have hsome := (Rule.verdict_eq_some (v := .accept) (hr r hmem)).mpr ⟨rfl, hadm⟩
      rw [hv r hmem] at hsome
      exact absurd hsome (by simp)
  | some v =>
      obtain ⟨r, hmem, hrv⟩ := List.exists_of_findSome?_eq_some hv
      obtain ⟨rfl, hadm⟩ := (Rule.verdict_eq_some (hr r hmem)).mp hrv
      simpa using ⟨r, hmem, hadm⟩

end Nft
