import BeautyAwg.Lib.QuickConf
import BeautyAwg.Awg.Render

/-!
# `Awg.Correctness.HubFile`: the hub's file reads back

`hubSections` is what the hub's file is meant to say. `parse_renderHub`: if no stored text breaks its line,
`awg-quick` reads exactly that.

## Contents
- **Meaning.** `interfaceSection`, `nodeSection`, `clientSection`, `hubSections`.
- **Texts.** Addresses, prefixes and numbers are clean; `PeerTexts` asks it of a peer's stored texts.
- **Blocks.** One `Lines` lemma for each block; `parse_renderHub`.
-/

namespace BeautyAwg
namespace Awg

open Netip QuickConf

/-! ## Meaning -/

/-- The obfuscation parameters, as both ends list them. -/
def paramsEntries (p : ObfuscationParams) : List (String × String) :=
  [("Jc", toString p.jc), ("Jmin", toString p.jmin), ("Jmax", toString p.jmax), ("S1", toString p.s1),
    ("S2", toString p.s2), ("H1", toString p.h1.toNat), ("H2", toString p.h2.toNat),
    ("H3", toString p.h3.toNat), ("H4", toString p.h4.toNat)]

/-- The hub's own section. -/
def interfaceSection (hub : Hub) : Section where
  name := "Interface"
  entries := ("Address", hub.address.text ++ "/" ++ toString hub.poolCIDR.bits) ::
    ("ListenPort", toString hub.listenPort) :: ("PrivateKey", hub.keys.priv) :: paramsEntries hub.params

/-- The section of a peer; the preshared key is left out where there is none. -/
def peerSection (pub preshared allowed : String) : Section where
  name := "Peer"
  entries := ("PublicKey", pub) ::
    ((if preshared ≠ "" then [("PresharedKey", preshared)] else []) ++ [("AllowedIPs", allowed)])

/-- The section of a home server. -/
def nodeSection (n : Node) : Section := peerSection n.keys.pub n.preshared n.allowedIPs

/-- The section of a device. -/
def clientSection (c : Client) : Section := peerSection c.keys.pub c.preshared (c.address.text ++ "/32")

/-- The interface, then a peer for each node but the hub's own, then one for each client. -/
def hubSections (hub : Hub) (nodes : List Node) (clients : List Client) : List Section :=
  interfaceSection hub ::
    ((nodes.filter fun n => !n.isHub).map nodeSection ++ clients.map clientSection)

/-! ## Texts -/

theorem solid_text4 (a : BitVec 32) : Solid (Addr.text4 a) := by
  have hbyte : ∀ i, Solid (toString (Addr.byte a i)) := fun i => solid_nat _
  have hdot : Solid "." := by decide
  exact ((((((hbyte 0).append hdot).append (hbyte 1)).append hdot).append (hbyte 2)).append hdot).append
    (hbyte 3)

theorem solid_text6 (a : BitVec 128) : Solid (Addr.text6 a) := by
  have hhex : ∀ gs : List Nat, Solid (":".intercalate (gs.map Addr.hex)) := by
    refine fun gs => solid_intercalate (by decide) fun s hs => ?_
    obtain ⟨n, -, rfl⟩ := List.mem_map.mp hs
    exact solid_toDigits 16 n
  unfold Addr.text6
  dsimp only
  split
  · exact Solid.append (by decide) (solid_text4 _)
  · split
    · exact hhex _
    · exact ((hhex _).append (by decide)).append (hhex _)

theorem clean_addr (a : Addr) : Clean a.text := by
  cases a with
  | invalid => exact ⟨by decide, by decide, by simp [Addr.text, isSpace], by simp [Addr.text, isSpace]⟩
  | v4 a => exact (solid_text4 a).clean
  | v6 a => exact (solid_text6 a).clean

theorem clean_prefix (p : Prefix) : Clean p.text ∧ p.text ≠ "" := by
  unfold Prefix.text
  split
  · exact ⟨((clean_addr _).append (Solid.clean (by decide))).append (solid_nat _).clean, by simp⟩
  · exact ⟨⟨by decide, by decide, by simp [isSpace], by simp [isSpace]⟩, by simp⟩

theorem clean_host (a : Addr) : Clean (a.text ++ "/32") ∧ a.text ++ "/32" ≠ "" :=
  ⟨(clean_addr a).append (Solid.clean (by decide)), by simp⟩

theorem clean_allowedIPs (n : Node) : Clean n.allowedIPs := by
  refine (clean_intercalate (by decide) fun s hs => ?_).1
  rcases List.mem_cons.mp hs with rfl | hs
  · exact clean_host _
  · obtain ⟨p, -, rfl⟩ := List.mem_map.mp hs
    exact clean_prefix p

/-- The texts of a peer that the file interpolates as they are stored. -/
structure PeerTexts (name pub preshared : String) : Prop where
  name : Quiet name
  pub : Clean pub
  preshared : Clean preshared

/-! ## Blocks -/

theorem lines_confLine {k v : String} (hk : KeyOk k) (hv : Clean v) : Lines (confLine k v) [.entry k v] :=
  Lines.entry hk hv

theorem lines_params (p : ObfuscationParams) :
    Lines (paramsBlock p) ((paramsEntries p).map fun e => .entry e.1 e.2) := by
  have hint : ∀ (key : String) (n : Int), KeyOk key →
      Lines (confLine key (toString n)) [.entry key (toString n)] :=
    fun key n hk => lines_confLine hk (solid_int n).clean
  have hnat : ∀ (key : String) (n : Nat), KeyOk key →
      Lines (confLine key (toString n)) [.entry key (toString n)] :=
    fun key n hk => lines_confLine hk (solid_nat n).clean
  exact ((((((((hint "Jc" p.jc (by decide)).append (hint "Jmin" p.jmin (by decide))).append
    (hint "Jmax" p.jmax (by decide))).append (hint "S1" p.s1 (by decide))).append
    (hint "S2" p.s2 (by decide))).append (hnat "H1" _ (by decide))).append
    (hnat "H2" _ (by decide))).append (hnat "H3" _ (by decide))).append (hnat "H4" _ (by decide))

theorem lines_interface {hub : Hub} (hpriv : Clean hub.keys.priv) :
    Lines (interfaceBlock hub) (interfaceSection hub).items := by
  have hheader : Lines "[Interface]\n" [.header "Interface"] :=
    Lines.line (s := "[Interface]") (by decide) (by decide)
  have haddress : Clean (hub.address.text ++ "/" ++ toString hub.poolCIDR.bits) :=
    ((clean_addr _).append (Solid.clean (by decide))).append (solid_nat _).clean
  have hport := (solid_int hub.listenPort).clean
  exact (((hheader.append (lines_confLine (k := "Address") (by decide) haddress)).append
    (lines_confLine (k := "ListenPort") (by decide) hport)).append
    (lines_confLine (k := "PrivateKey") (by decide) hpriv)).append (lines_params hub.params)

theorem lines_peer {kind name pub preshared allowed : String} (hkind : '\n' ∉ kind.toList)
    (htexts : PeerTexts name pub preshared) (hallowed : Clean allowed) :
    Lines (peerBlock kind name pub preshared allowed) (peerSection pub preshared allowed).items := by
  have hblank : Lines "\n" [] := Lines.line (s := "") (by decide) (by decide)
  have hcomment : Lines ("#" ++ (" " ++ kind ++ ": ") ++ name ++ "\n") [] :=
    Lines.comment (by simp [String.toList_append, hkind]) htexts.name
  have hheader : Lines "[Peer]\n" [.header "Peer"] := Lines.line (s := "[Peer]") (by decide) (by decide)
  have hpub := lines_confLine (k := "PublicKey") (by decide) htexts.pub
  have hpsk : Lines (if preshared ≠ "" then confLine "PresharedKey" preshared else "")
      ((if preshared ≠ "" then [("PresharedKey", preshared)] else []).map fun e => .entry e.1 e.2) := by
    split
    · exact lines_confLine (by decide) htexts.preshared
    · exact Lines.empty
  have hips := lines_confLine (k := "AllowedIPs") (by decide) hallowed
  have htext : peerBlock kind name pub preshared allowed = "\n" ++
      ("#" ++ (" " ++ kind ++ ": ") ++ name ++ "\n") ++ "[Peer]\n" ++ confLine "PublicKey" pub ++
      (if preshared ≠ "" then confLine "PresharedKey" preshared else "") ++ confLine "AllowedIPs" allowed := by
    apply String.toList_injective
    simp [peerBlock, String.toList_append]
  rw [htext]
  have h := ((((hblank.append hcomment).append hheader).append hpub).append hpsk).append hips
  simpa [Section.items, peerSection] using h

/-- **The file reads back**: if the texts it interpolates are clean, `awg-quick` reads what was meant. -/
theorem parse_renderHub {hub : Hub} {nodes : List Node} {clients : List Client} (hpriv : Clean hub.keys.priv)
    (hnodes : ∀ n ∈ nodes, n.isHub = false → PeerTexts n.name n.keys.pub n.preshared)
    (hclients : ∀ c ∈ clients, PeerTexts c.name c.keys.pub c.preshared) :
    parse (renderHub hub nodes clients) = some (hubSections hub nodes clients) := by
  apply parse_of_lines
  have hnode : ∀ n ∈ nodes.filter fun n => !n.isHub, Lines (nodeBlock n) (nodeSection n).items := by
    intro n hn
    obtain ⟨hmem, hhub⟩ := List.mem_filter.mp hn
    exact lines_peer (by decide) (hnodes n hmem (by simpa using hhub)) (clean_allowedIPs n)
  have hclient : ∀ c ∈ clients, Lines (clientBlock c) (clientSection c).items := fun c hc =>
    lines_peer (by decide) (hclients c hc) (clean_host c.address).1
  have h := ((lines_interface hpriv).append (Lines.join hnode)).append (Lines.join hclient)
  simpa [hubSections, renderHub, List.flatMap_map] using h

end Awg
end BeautyAwg
