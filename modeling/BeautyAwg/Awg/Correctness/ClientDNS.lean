import BeautyAwg.Awg.Correctness.ClientFile
import BeautyAwg.Awg.Correctness.NftMeaning

/-!
# `Awg.Correctness.ClientDNS`: whether a device reaches its DNS server

The file of a device names a DNS server, its `AllowedIPs` say what enters the tunnel, the hub sends the
device's queries to the server and lets some packets through. `dnsReachable_iff`: when all of this agrees. It
does not where an access level leaves the server out: the queries still go there, and are dropped.

## Contents
- **The promise.** `DNSQuery`, `NamesServer`, `DNSReachable`.
- **The condition.** `OpensDNS`, `DNSOpen`.
- **The pieces.** `coveredBy_hub`, `accepts_of_opensDNS`, `prerouting_finds`.
- **When it holds.** `dnsReachable_iff`, `level_without_dns`.
-/

namespace BeautyAwg
namespace Awg

open Netip QuickConf Nft

/-! ## The promise -/

/-- A new DNS query of the device. -/
structure DNSQuery (c : Client) (p : Packet) : Prop where
  src : c.address = .v4 p.src
  proto : p.proto = .udp ∨ p.proto = .tcp
  port : p.dport = 53
  new : p.ct = .new

/-- The file names the DNS server of the grant, an address in the subnets of its node. -/
structure NamesServer (hub : Hub) (c : Client) (granted : List Grant) (g : Grant) (y : BitVec 32) : Prop where
  resolver : hub.resolver = false
  override : c.dns = ""
  mem : g ∈ granted
  named : clientDNS hub c granted = g.nodeDNS
  addr : parseAddr g.nodeDNS.toList = some (.v4 y)
  inside : ∃ s ∈ g.subnets, s.contains (.v4 y) = true

/-- The server enters the tunnel, and the hub sends the device's queries there and lets them through. What is
    sent to the hub's own node leaves by the WAN. -/
structure DNSReachable (hub : Hub) (c : Client) (granted : List Grant) : Prop where
  resolver : hub.resolver = true → 0 < hub.resolverPort →
    clientDNS hub c granted = hub.address.text ∧ coveredBy (fields (allowedValue hub granted)) hub.address = true
  covered : ∀ g y, NamesServer hub c granted g y → coveredBy (fields (allowedValue hub granted)) (.v4 y) = true
  forwarded : ∀ g y, NamesServer hub c granted g y → ∀ nodes links p, DNSQuery c p → p.dst = y →
    (g.isExit = true → p.oif = hub.wanIface) → (forwardChain hub nodes granted links).accepts p = true
  redirected : ∀ g y, NamesServer hub c granted g y → ∀ p, DNSQuery c p →
    (preroutingChain hub granted).statement p = some (.dnat g.nodeDNS)

/-! ## The condition -/

/-- The access-level rule leaves port 53 of the protocol open. -/
def GrantRule.OpensDNS (r : GrantRule) (proto : L4) : Prop :=
  (r.AnyProto ∨ L4.named r.proto = some proto) ∧
    (0 < r.portFrom → r.portFrom ≤ 53 ∧ 53 ≤ max r.portFrom r.portTo)

/-- A grant that is no hub exit opens port 53 of the address: all of its subnets, or a rule. -/
def Grant.OpensDNS (g : Grant) (y : BitVec 32) (proto : L4) : Prop :=
  g.isExit = false ∧ ((g.rules = [] ∧ ∃ s ∈ g.subnets, s.contains (.v4 y) = true) ∨
    ∃ r ∈ g.rules, r.dest.contains (.v4 y) = true ∧ r.OpensDNS proto)

/-- The first DNS server of a granted node, where there is one. -/
def firstDNS (granted : List Grant) : Option String := (granted.map Grant.nodeDNS).find? fun dns => dns ≠ ""

/-- The hub's address is IPv4, or at least an address and no grant asks for the default route. No access level
    leaves out the first DNS server of a granted node, if it is an address of that node. -/
structure DNSOpen (hub : Hub) (c : Client) (granted : List Grant) : Prop where
  resolver : hub.resolver = true → 0 < hub.resolverPort →
    hub.address.is4 = true ∨ hub.address.isValid = true ∧ ¬ TunnelsAll granted
  node : hub.resolver = false → c.dns = "" → ∀ g ∈ granted, firstDNS granted = some g.nodeDNS → ∀ y,
    parseAddr g.nodeDNS.toList = some (.v4 y) → (∃ s ∈ g.subnets, s.contains (.v4 y) = true) →
    if g.isExit = false ∧ c.address.is4 = true then ∀ proto ∈ [.udp, .tcp], ∃ g' ∈ granted, g'.OpensDNS y proto
    else hub.address = .v4 y ∨ (∃ g' ∈ granted, g'.Covers (.v4 y)) ∨ ∃ g' ∈ granted, g'.nodeExit = true

/-! ## The pieces -/

variable {hub : Hub} {c : Client} {granted : List Grant} {g : Grant} {y : BitVec 32}

theorem firstDNS_cons (h : g.nodeDNS ≠ "") : firstDNS (g :: granted) = some g.nodeDNS := by
  simp [firstDNS, h]

theorem firstDNS_cons_none (h : g.nodeDNS = "") : firstDNS (g :: granted) = firstDNS granted := by
  simp [firstDNS, h]

theorem host_self {a : Addr} : (Prefix.host a).contains a = true ↔ a.isValid = true := by
  cases a <;> simp [Prefix.host, Prefix.contains, Addr.isValid]

theorem coveredBy_hub : coveredBy (clientAllowedIPs hub granted) hub.address = true ↔
    hub.address.is4 = true ∨ hub.address.isValid = true ∧ ¬ TunnelsAll granted := by
  have hvalid : hub.address.is4 = true → hub.address.isValid = true := by
    cases hub.address <;> simp [Addr.is4, Addr.isValid]
  rw [clientAllowedIPs_covers]
  split
  · rename_i hall
    simp [hall]
  · rename_i hnot
    constructor
    · rintro (h | ⟨g, -, s, -, hc⟩)
      · exact .inr ⟨host_self.mp h, hnot⟩
      · refine .inr ⟨?_, hnot⟩
        by_contra hinvalid
        have hnone : hub.address = .invalid := by
          cases h : hub.address <;> simp_all [Addr.isValid]
        rw [hnone] at hc
        simp [Prefix.contains] at hc
    · rintro (h | ⟨h, -⟩)
      · exact .inl (host_self.mpr (hvalid h))
      · exact .inl (host_self.mpr h)

theorem clientDNS_eq (hresolver : hub.resolver = false) (hdns : c.dns = "") :
    clientDNS hub c granted = (firstDNS granted).getD hub.dns := by
  unfold clientDNS firstDNS
  simp [hresolver, hdns]

theorem ne_empty_of_parseAddr (h : parseAddr g.nodeDNS.toList = some (.v4 y)) : g.nodeDNS ≠ "" := by
  intro hempty
  have hnone : parseAddr "".toList = none := by decide
  rw [hempty, hnone] at h
  exact absurd h (by simp)

/-- What the file names is the first server of a granted node. -/
theorem namesServer_iff : NamesServer hub c granted g y ↔ hub.resolver = false ∧ c.dns = "" ∧ g ∈ granted ∧
    firstDNS granted = some g.nodeDNS ∧ parseAddr g.nodeDNS.toList = some (.v4 y) ∧
    ∃ s ∈ g.subnets, s.contains (.v4 y) = true := by
  constructor
  · rintro ⟨hresolver, hdns, hg, hnamed, haddr, hinside⟩
    refine ⟨hresolver, hdns, hg, ?_, haddr, hinside⟩
    rw [clientDNS_eq hresolver hdns] at hnamed
    cases hfirst : firstDNS granted with
    | some dns => rw [← hnamed, hfirst, Option.getD_some]
    | none =>
      have hnone := List.find?_eq_none.mp hfirst g.nodeDNS (List.mem_map_of_mem hg)
      exact absurd (by simpa using hnone) (ne_empty_of_parseAddr haddr)
  · rintro ⟨hresolver, hdns, hg, hfirst, haddr, hinside⟩
    refine ⟨hresolver, hdns, hg, ?_, haddr, hinside⟩
    rw [clientDNS_eq hresolver hdns, hfirst, Option.getD_some]

theorem permits_dns {r : GrantRule} {p : Packet} (hproto : p.proto = .udp ∨ p.proto = .tcp) (hport : p.dport = 53) :
    r.Permits p ↔ r.dest.contains (.v4 p.dst) = true ∧ r.OpensDNS p.proto := by
  have h53 : p.dport.toNat = 53 := by rw [hport]; rfl
  unfold GrantRule.Permits GrantRule.OpensDNS
  rw [h53]
  split
  · rename_i hfrom
    simp only [hfrom, forall_const]
    tauto
  · rename_i hfrom
    simp [hfrom]

/-- Towards a device's own grants, whatever the nodes and links are, an open port is what lets a query through. -/
theorem accepts_of_opensDNS (hown : ∀ g ∈ granted, g.clientAddr = c.address) {p : Packet} (hp : DNSQuery c p)
    (h : ∃ g ∈ granted, g.OpensDNS p.dst p.proto) (nodes : List Node) (links : List NodeLink) :
    (forwardChain hub nodes granted links).accepts p = true := by
  obtain ⟨g, hg, hexit, hopen⟩ := h
  have hpermits : g.Permits hub nodes p := by
    rcases hopen with ⟨hrules, hinside⟩ | ⟨r, hr, hr'⟩
    · exact .inr (.inr (.inl ⟨hexit, hrules, hinside⟩))
    · exact .inr (.inr (.inr ⟨hexit, r, hr, (permits_dns hp.proto hp.port).mpr hr'⟩))
  exact forwardChain_accepts.mpr (.inr (.inl ⟨g, hg, (hown g hg).trans hp.src, hpermits⟩))

/-- A node with the one address in its LAN. -/
def nodeAt (y : BitVec 32) : Node := ⟨"", .invalid, [Prefix.host (.v4 y)], ⟨"", ""⟩, "", "", false, "", []⟩

/-- The query of the device at `x` to `y` that does not leave by the WAN. -/
def queryTo (hub : Hub) (x y : BitVec 32) (proto : L4) : Packet where
  src := x
  dst := y
  oif := hub.wanIface ++ "x"
  proto := proto
  dport := 53
  ct := .new

theorem opensDNS_of_accepts {x : BitVec 32} {proto : L4} (hproto : proto = .udp ∨ proto = .tcp)
    (h : (forwardChain hub [nodeAt y] granted []).accepts (queryTo hub x y proto) = true) :
    ∃ g ∈ granted, g.OpensDNS y proto := by
  rcases forwardChain_accepts.mp h with hct | ⟨g, hg, -, hpermits⟩ | ⟨l, hl, -⟩
  · exact absurd hct (by simp [queryTo])
  · rcases hpermits with ⟨-, hoif⟩ | ⟨-, -, hmesh⟩ | ⟨hexit, hrules, hinside⟩ | ⟨hexit, r, hr, hr'⟩
    · have hlen := congrArg String.length hoif
      exact absurd hlen (by simp [queryTo])
    · have hhost : (Prefix.host (.v4 y)).contains (.v4 y) = true := host_contains.mpr rfl
      exact absurd (.inl ⟨nodeAt y, List.mem_singleton.mpr rfl, rfl, _, List.mem_singleton.mpr rfl, hhost⟩) hmesh
    · exact ⟨g, hg, hexit, .inl ⟨hrules, hinside⟩⟩
    · exact ⟨g, hg, hexit, .inr ⟨r, hr, (permits_dns (p := queryTo hub x y proto) hproto rfl).mp hr'⟩⟩
  · exact absurd hl List.not_mem_nil

/-- One of the two rules matches a query. -/
theorem find_dnsRules {m : Match} {stmt : Stmt} {p : Packet} (hm : m.holds p = true)
    (hproto : p.proto = .udp ∨ p.proto = .tcp) (hport : p.dport = 53) (rest : List Rule) :
    ((dnsRules m stmt ++ rest).find? fun r => r.matchers.all (Match.holds p)).map Rule.stmt = some stmt := by
  rcases hproto with hudp | htcp
  · have hmatch : Match.holds p (.dport "udp" 53 none) = true := by
      simp [Match.holds, L4.named, hudp, hport]
    simp [dnsRules, hm, hmatch]
  · have hother : Match.holds p (.dport "udp" 53 none) = false := by
      simp [Match.holds, L4.named, htcp]
    have hmatch : Match.holds p (.dport "tcp" 53 none) = true := by
      simp [Match.holds, L4.named, htcp, hport]
    simp [dnsRules, hm, hother, hmatch]

/-- The first server of the device's own grants decides: their rules match every query of the device, and those of
    other devices none. -/
theorem prerouting_finds (hresolver : hub.resolver = false) {p : Packet} (hp : DNSQuery c p) :
    (preroutingChain hub granted).statement p =
      (firstDNS (granted.filter fun g => g.clientAddr = c.address)).map .dnat := by
  unfold Chain.statement preroutingChain
  simp only [hresolver, Bool.false_eq_true, if_false]
  induction granted with
  | nil => rfl
  | cons g gs ih =>
    rw [List.flatMap_cons]
    by_cases hown : g.clientAddr = c.address
    · rw [List.filter_cons_of_pos (by simpa using hown)]
      by_cases hdns : g.nodeDNS = ""
      · rw [if_pos hdns, List.nil_append, ih, firstDNS_cons_none hdns]
      · have hsaddr : Match.holds p (.saddr (.addr g.clientAddr)) = true := by
          simp [Match.holds, Operand.covers, hown, hp.src]
        rw [if_neg hdns, find_dnsRules hsaddr hp.proto hp.port, firstDNS_cons hdns]
        rfl
    · rw [List.filter_cons_of_neg (by simpa using hown)]
      have hsaddr : Match.holds p (.saddr (.addr g.clientAddr)) = false := by
        simpa [Match.holds, Operand.covers, hp.src] using hown
      by_cases hdns : g.nodeDNS = ""
      · rw [if_pos hdns, List.nil_append, ih]
      · rw [if_neg hdns, ← ih]
        simp [dnsRules, hsaddr]

theorem prerouting_statement (hresolver : hub.resolver = false) (hown : ∀ g ∈ granted, g.clientAddr = c.address)
    {p : Packet} (hp : DNSQuery c p) {dns : String} (hfirst : firstDNS granted = some dns) :
    (preroutingChain hub granted).statement p = some (.dnat dns) := by
  have hself : (granted.filter fun g => g.clientAddr = c.address) = granted :=
    List.filter_eq_self.mpr fun g hg => decide_eq_true (hown g hg)
  rw [prerouting_finds hresolver hp, hself, hfirst]
  rfl

/-! ## When it holds -/

theorem covers_of_opensDNS {proto : L4} (h : ∃ g ∈ granted, g.OpensDNS y proto) :
    coveredBy (clientAllowedIPs hub granted) (.v4 y) = true := by
  obtain ⟨g, hg, -, hopen⟩ := h
  refine covers_v4.mpr (.inr (.inl ⟨g, hg, ?_⟩))
  unfold Grant.Covers
  rcases hopen with ⟨hrules, hinside⟩ | ⟨r, hr, hdest, -⟩
  · rw [if_pos hrules]
    exact hinside
  · rw [if_neg (List.ne_nil_of_mem hr)]
    exact ⟨r, hr, hdest⟩

/-- **When a device reaches its DNS server.** -/
theorem dnsReachable_iff (hub : Hub) (c : Client) (granted : List Grant)
    (hown : ∀ g ∈ granted, g.clientAddr = c.address) : DNSReachable hub c granted ↔ DNSOpen hub c granted := by
  constructor
  · intro h
    constructor
    case resolver =>
      intro hresolver hport
      have hcovered := (h.resolver hresolver hport).2
      rw [fields_allowedValue] at hcovered
      exact coveredBy_hub.mp hcovered
    case node =>
      intro hresolver hdns g hg hfirst y haddr hinside
      have hnames : NamesServer hub c granted g y :=
        namesServer_iff.mpr ⟨hresolver, hdns, hg, hfirst, haddr, hinside⟩
      split
      · rename_i hopen
        obtain ⟨x, hx⟩ := Addr.is4_iff.mp hopen.2
        intro proto hproto
        have hproto : proto = .udp ∨ proto = .tcp := by simpa using hproto
        -- with only the server's own site on the hub, no link and another way out than the WAN, nothing but a
        -- grant of its site can accept the query
        refine opensDNS_of_accepts hproto (h.forwarded g y hnames [nodeAt y] [] (queryTo hub x y proto)
          ⟨hx, hproto, rfl, rfl⟩ rfl fun hexit => ?_)
        rw [hopen.1] at hexit
        exact absurd hexit (by simp)
      · have hcovered := h.covered g y hnames
        rw [fields_allowedValue] at hcovered
        exact covers_v4.mp hcovered
  · intro h
    constructor
    case resolver =>
      intro hresolver hport
      rw [fields_allowedValue]
      refine ⟨?_, coveredBy_hub.mpr (h.resolver hresolver hport)⟩
      unfold clientDNS
      rw [if_pos hresolver]
    case covered =>
      intro g y hnames
      obtain ⟨hresolver, hdns, hg, hfirst, haddr, hinside⟩ := namesServer_iff.mp hnames
      have hcond := h.node hresolver hdns g hg hfirst y haddr hinside
      rw [fields_allowedValue]
      split at hcond
      · exact covers_of_opensDNS (hcond .udp (by simp))
      · exact covers_v4.mpr hcond
    case forwarded =>
      intro g y hnames nodes links p hp hdst hroute
      obtain ⟨hresolver, hdns, hg, hfirst, haddr, hinside⟩ := namesServer_iff.mp hnames
      cases hexit : g.isExit with
      | true =>
        -- the hub's own node: its grant opens the WAN whatever the access levels say
        have hpermits : g.Permits hub nodes p := .inl ⟨hexit, hroute hexit⟩
        exact forwardChain_accepts.mpr (.inr (.inl ⟨g, hg, (hown g hg).trans hp.src, hpermits⟩))
      | false =>
        have hc4 : c.address.is4 = true := Addr.is4_iff.mpr ⟨p.src, hp.src⟩
        have hcond := h.node hresolver hdns g hg hfirst y haddr hinside
        rw [if_pos ⟨hexit, hc4⟩] at hcond
        refine accepts_of_opensDNS hown hp ?_ nodes links
        rw [hdst]
        exact hcond p.proto (by simpa using hp.proto)
    case redirected =>
      intro g y hnames p hp
      obtain ⟨hresolver, -, -, hfirst, -⟩ := namesServer_iff.mp hnames
      exact prerouting_statement hresolver hown hp hfirst

/-- A device, and its grant of a home server with a DNS server under an access level. -/
def demoLaptop : Client := ⟨"laptop", .ofBytes 10 8 0 5, ⟨"priv", "pub"⟩, "", ""⟩

/-- A grant of a location with one DNS server and these rules. -/
def demoHome (rules : List GrantRule) : Grant where
  clientAddr := .ofBytes 10 8 0 5
  nodeAddr := .ofBytes 10 8 0 2
  subnets := [⟨.ofBytes 192 168 1 0, 24⟩]
  rules := rules
  isExit := false
  nodeExit := false
  nodeDNS := "192.168.1.1"
  domains := []

theorem demoHome_addr : parseAddr "192.168.1.1".toList = some (.v4 0xc0a80101#32) := by decide

/-- Without an access level the device reaches the server. -/
theorem dnsReachable_home : DNSReachable demoHub demoLaptop [demoHome []] := by
  refine (dnsReachable_iff demoHub demoLaptop [demoHome []] (by decide)).mpr ⟨fun h => absurd h (by decide), ?_⟩
  intro _ _ g hg _ y _ hinside
  obtain rfl := List.mem_singleton.mp hg
  rw [if_pos (by decide)]
  exact fun proto _ => ⟨demoHome [], hg, rfl, .inl ⟨rfl, hinside⟩⟩

/-- An access level for one web server: the file names a server that it does not send into the tunnel, and the
    hub drops the queries it sends there. -/
theorem level_without_dns :
    let granted := [demoHome [⟨⟨.ofBytes 192 168 1 10, 32⟩, "tcp", 80, 0⟩]]
    (∀ g ∈ granted, g.clientAddr = demoLaptop.address) ∧
      clientAllowedIPs demoHub granted = ["10.8.0.1/32", "192.168.1.10/32"] ∧
      clientDNS demoHub demoLaptop granted = "192.168.1.1" ∧
      (forwardChain demoHub [] granted []).accepts
        ⟨0x0a080005#32, 0xc0a80101#32, "awg0", .udp, 53, .new, false, 0⟩ = false ∧
      ¬ DNSReachable demoHub demoLaptop granted := by
  refine ⟨by decide, by decide +kernel, by decide, by decide, fun h => ?_⟩
  have hcovered := h.covered _ 0xc0a80101#32 ⟨rfl, rfl, List.mem_singleton.mpr rfl, by decide, demoHome_addr,
    ⟨_, List.mem_singleton.mpr rfl, by decide⟩⟩
  exact absurd hcovered (by decide +kernel)

end Awg
end BeautyAwg
