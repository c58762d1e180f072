import BeautyAwg.Awg.Correctness.ClientDNS
import BeautyAwg.Awg.Correctness.FilePeers

/-!
# `Awg.Correctness.Ends`: the hub's file and a device's or home server's

Both kinds of file read back as the ends of a tunnel, and an end that the hub lists makes a pair with it: `pair_client`,
`pair_node`. Neither asks that the two files were printed at one time, only that what both print has not changed.

## Contents
- **Meaning.** `clientSelf`, `nodeSelf`, `hubPeer`.
- **Devices.** `read_renderClient`.
- **Home servers.** `OneLine`, `clean_hook`, `read_renderNode`.
- **Pairs.** `pair_client`, `pair_node`.
-/

namespace BeautyAwg
namespace Awg

open Netip QuickConf Tunnel

/-! ## Meaning -/

/-- The `[Interface]` section of a device's file. -/
def clientSelf (hub : Hub) (c : Client) (granted : List Grant) : Section where
  name := "Interface"
  entries := ("Address", c.address.text ++ "/32") :: ("PrivateKey", c.keys.priv) ::
    ((if clientDNS hub c granted ≠ "" then [("DNS", clientDNS hub c granted)] else []) ++ paramsEntries hub.params)

/-- A hook as an entry of the file. -/
def hookEntry (h : Hook) : String × String :=
  (if h.up then "PostUp" else "PostDown", h.cmd.text ++ if h.tolerated then " || true" else "")

/-- The `[Interface]` section of a home server's file. -/
def nodeSelf (hub : Hub) (n : Node) (reach : List Prefix) : Section where
  name := "Interface"
  entries := ("Address", n.address.text ++ "/32") ::
    ("PrivateKey", if n.keys.priv = "" then nodePrivatePlaceholder else n.keys.priv) ::
    (paramsEntries hub.params ++ (nodeHooks hub n reach).map hookEntry)

/-- The hub, as the other end lists it. -/
def hubPeer (hub : Hub) (preshared : String) (ips : List String) : Section where
  name := "Peer"
  entries := ("PublicKey", hub.keys.pub) :: ((if preshared ≠ "" then [("PresharedKey", preshared)] else []) ++
    [("Endpoint", hub.endpoint), ("AllowedIPs", ", ".intercalate ips), ("PersistentKeepalive", "25")])

/-- The texts of the hub's row that the other ends' files print. -/
structure HubTexts (hub : Hub) : Prop where
  pub : Clean hub.keys.pub
  endpoint : Clean hub.endpoint

section Blocks

theorem lines_header : Lines "[Interface]\n" [.header "Interface"] :=
  Lines.line (s := "[Interface]") (by decide) (by decide)

/-- An entry that is left out where it is empty. -/
theorem lines_optional {k v : String} (hk : KeyOk k) (hv : Clean v) :
    Lines (if v ≠ "" then confLine k v else "") ((if v ≠ "" then [(k, v)] else []).map fun e => .entry e.1 e.2) := by
  split
  · exact lines_confLine hk hv
  · exact Lines.empty

/-- What both kinds of file end with. -/
def peerText (hub : Hub) (preshared : String) (ips : List String) : String :=
  "\n# hub\n[Peer]\n" ++ confLine "PublicKey" hub.keys.pub ++
    (if preshared ≠ "" then confLine "PresharedKey" preshared else "") ++ confLine "Endpoint" hub.endpoint ++
    confLine "AllowedIPs" (", ".intercalate ips) ++ confLine "PersistentKeepalive" "25"

theorem lines_hubPeer {hub : Hub} {preshared : String} {ips : List String} (hhub : HubTexts hub)
    (hpsk : Clean preshared) (hips : ∀ s ∈ ips, Clean s ∧ s ≠ "") :
    Lines (peerText hub preshared ips) (hubPeer hub preshared ips).items := by
  have hheader : Lines "\n# hub\n[Peer]\n" [.header "Peer"] := Lines.block (s := "\n# hub\n[Peer]") (by decide)
  have hlist : Clean (", ".intercalate ips) := (clean_intercalate (by decide) hips).1
  have h := (((((hheader.append
    (lines_confLine (k := "PublicKey") (by decide) hhub.pub)).append
    (lines_optional (k := "PresharedKey") (by decide) hpsk)).append
    (lines_confLine (k := "Endpoint") (by decide) hhub.endpoint)).append
    (lines_confLine (k := "AllowedIPs") (by decide) hlist)).append
    (lines_confLine (k := "PersistentKeepalive") (v := "25") (by decide) (Solid.clean (by decide))))
  have hitems : (hubPeer hub preshared ips).items = [.header "Peer"] ++ [.entry "PublicKey" hub.keys.pub] ++
      ((if preshared ≠ "" then [("PresharedKey", preshared)] else []).map fun e => .entry e.1 e.2) ++
      [.entry "Endpoint" hub.endpoint] ++ [.entry "AllowedIPs" (", ".intercalate ips)] ++
      [.entry "PersistentKeepalive" "25"] := by
    simp [Section.items, hubPeer]
  rw [hitems]
  unfold peerText
  exact h

end Blocks

/-! ## Devices -/

theorem clean_listed {hub : Hub} {granted : List Grant} {s : String} (hs : s ∈ clientAllowedIPs hub granted) :
    Clean s ∧ s ≠ "" := by
  refine ⟨(clean_entry hs).1, ?_⟩
  rintro rfl
  unfold clientAllowedIPs at hs
  dsimp only at hs
  split at hs
  · exact absurd (List.mem_singleton.mp hs) (by decide)
  · rcases List.mem_cons.mp hs with h | h
    · exact (clean_host hub.address).2 h.symm
    · obtain ⟨g, -, h⟩ := List.mem_flatMap.mp h
      rcases List.mem_append.mp h with h | h
      · split at h
        · exact absurd (List.mem_singleton.mp h) (by decide)
        · exact absurd h List.not_mem_nil
      · obtain ⟨p, -, h⟩ := List.mem_map.mp h
        have hp := clean_prefix p
        exact hp.2 h

/-- A device's file up to its peer. -/
def clientHead (hub : Hub) (c : Client) (granted : List Grant) : String :=
  "[Interface]\n" ++ confLine "Address" (c.address.text ++ "/32") ++ confLine "PrivateKey" c.keys.priv ++
    (if clientDNS hub c granted ≠ "" then confLine "DNS" (clientDNS hub c granted) else "") ++ paramsBlock hub.params

theorem renderClient_peer (hub : Hub) (c : Client) (granted : List Grant) :
    renderClient hub c granted =
      clientHead hub c granted ++ peerText hub c.preshared (clientAllowedIPs hub granted) := by
  unfold renderClient clientHead peerText
  simp only [String.append_assoc]

/-- **A device's file reads back.** -/
theorem read_renderClient {hub : Hub} {c : Client} {granted : List Grant} (hhub : HubTexts hub)
    (hpriv : Clean c.keys.priv) (hpsk : Clean c.preshared) (hdns : Clean (clientDNS hub c granted)) :
    read (renderClient hub c granted) =
      some ⟨clientSelf hub c granted, [hubPeer hub c.preshared (clientAllowedIPs hub granted)]⟩ := by
  refine read_of_parse (parse_of_lines ?_) rfl fun p hp => List.mem_singleton.mp hp ▸ rfl
  have hself : Lines (clientHead hub c granted) (clientSelf hub c granted).items := by
    have h := (((lines_header.append (lines_confLine (k := "Address") (by decide) (clean_host c.address).1)).append
      (lines_confLine (k := "PrivateKey") (by decide) hpriv)).append
      (lines_optional (k := "DNS") (by decide) hdns)).append (lines_params hub.params)
    have hitems : (clientSelf hub c granted).items = [.header "Interface"] ++
        [.entry "Address" (c.address.text ++ "/32")] ++ [.entry "PrivateKey" c.keys.priv] ++
        ((if clientDNS hub c granted ≠ "" then [("DNS", clientDNS hub c granted)] else []).map
          fun e => .entry e.1 e.2) ++ (paramsEntries hub.params).map fun e => .entry e.1 e.2 := by
      simp [Section.items, clientSelf]
    rw [hitems]
    unfold clientHead
    exact h
  have hlisted : ∀ s ∈ clientAllowedIPs hub granted, Clean s ∧ s ≠ "" := fun _ => clean_listed
  rw [renderClient_peer, List.flatMap_cons, List.flatMap_cons, List.flatMap_nil, List.append_nil]
  exact hself.append (lines_hubPeer hhub hpsk hlisted)

/-! ## Home servers -/

/-- A text inside one line, without a comment. -/
def OneLine (s : String) : Prop := '\n' ∉ s.toList ∧ '#' ∉ s.toList

instance (s : String) : Decidable (OneLine s) := inferInstanceAs (Decidable (_ ∧ _))

theorem OneLine.append {s t : String} (hs : OneLine s) (ht : OneLine t) : OneLine (s ++ t) := by
  unfold OneLine at *
  simp [String.toList_append, hs, ht]

theorem oneLine_of_clean {s : String} (h : Clean s) : OneLine s := ⟨h.noBreak, h.noComment⟩

theorem oneLine_elim {α : Type} {o : Option α} {f : α → String} (h : ∀ x ∈ o, OneLine (f x)) :
    OneLine (o.elim "" f) := by
  cases o with
  | none => exact ⟨by simp, by simp⟩
  | some x => exact h x rfl

/-- What a rule says beside fixed words stays in its line. -/
structure RuleLine (r : IptRule) : Prop where
  inIf : ∀ m ∈ r.inIf, OneLine m.name
  outIf : ∀ m ∈ r.outIf, OneLine m.name
  connmark : ∀ mark ∈ r.connmark, OneLine mark
  target : Clean r.target.text ∧ r.target.text ≠ ""

theorem oneLine_ifMatch {m : IfMatch} {flag : String} (hflag : OneLine flag) (hname : OneLine m.name) :
    OneLine (m.text flag) := by
  have hnot : OneLine (if m.negated then "! " else "") := by
    split <;> decide
  exact (((hnot.append hflag).append (by decide)).append hname).append (by decide)

/-- A rule's text but for its target. -/
theorem text_rule {r : IptRule} {op : String} (hop : OneLine op) (h : RuleLine r) :
    ∃ head, OneLine head ∧ r.text op = head ++ r.target.text := by
  have htable : OneLine r.table.text := by
    cases r.table <;> decide
  have hchain : OneLine r.chain.text := by
    cases r.chain <;> decide
  have hblank : OneLine " " := by decide
  have hsrc : OneLine (r.src.elim "" fun p => "-s " ++ p.text ++ " ") :=
    oneLine_elim fun p _ => by
      have hp := clean_prefix p
      exact (OneLine.append (by decide) (oneLine_of_clean hp.1)).append hblank
  have hin : OneLine (r.inIf.elim "" (IfMatch.text "-i")) :=
    oneLine_elim fun m hm => oneLine_ifMatch (by decide) (h.inIf m hm)
  have hout : OneLine (r.outIf.elim "" (IfMatch.text "-o")) :=
    oneLine_elim fun m hm => oneLine_ifMatch (by decide) (h.outIf m hm)
  have hsyn : OneLine (if r.syn then "-p tcp --tcp-flags SYN,RST SYN " else "") := by
    split <;> decide
  have hmark : OneLine (r.connmark.elim "" fun mark => "-m connmark --mark " ++ mark ++ " ") :=
    oneLine_elim fun mark hm => (OneLine.append (by decide) (h.connmark mark hm)).append hblank
  exact ⟨_, (((((((((htable.append hop).append hblank).append hchain).append hblank).append hsrc).append hin).append
    hout).append hsyn).append hmark).append (by decide), rfl⟩

/-- The first character is no blank. -/
def Begins (s : String) : Prop := s.toList.head?.any (fun c => !isSpace c) = true

/-- The last character is no blank. -/
def EndsText (s : String) : Prop := s.toList.getLast?.any (fun c => !isSpace c) = true

instance (s : String) : Decidable (Begins s) := inferInstanceAs (Decidable (_ = _))
instance (s : String) : Decidable (EndsText s) := inferInstanceAs (Decidable (_ = _))

theorem Begins.append {s : String} (h : Begins s) (t : String) : Begins (s ++ t) := by
  obtain ⟨c, hc, hspace⟩ := (Option.any_eq_true _ _).mp h
  unfold Begins
  rw [String.toList_append, List.head?_append, hc]
  exact hspace

theorem EndsText.append {t : String} (s : String) (h : EndsText t) : EndsText (s ++ t) := by
  obtain ⟨c, hc, hspace⟩ := (Option.any_eq_true _ _).mp h
  unfold EndsText
  rw [String.toList_append, List.getLast?_append, hc]
  exact hspace

theorem ends_of_clean {s : String} (h : Clean s) (hne : s ≠ "") : EndsText s := by
  cases hlast : s.toList.getLast? with
  | none => exact absurd (String.toList_eq_nil_iff.mp (List.getLast?_eq_none_iff.mp hlast)) hne
  | some c => exact (Option.any_eq_true _ _).mpr ⟨c, hlast, by simp [h.last c hlast]⟩

theorem clean_of_ends {s : String} (hline : OneLine s) (hbegins : Begins s) (hends : EndsText s) : Clean s where
  noBreak := hline.1
  noComment := hline.2
  head c hc := by
    obtain ⟨d, hd, hspace⟩ := (Option.any_eq_true _ _).mp hbegins
    obtain rfl := Option.some.inj (hd.symm.trans hc)
    simpa using hspace
  last c hc := by
    obtain ⟨d, hd, hspace⟩ := (Option.any_eq_true _ _).mp hends
    obtain rfl := Option.some.inj (hd.symm.trans hc)
    simpa using hspace

/-- What a command says beside fixed words stays in its line and ends in a character that is no blank. -/
def CmdLine : Cmd → Prop
  | .sysctl args | .ip args => Clean args ∧ args ≠ ""
  | .add _ r | .delete r | .xkeen _ r => RuleLine r

theorem clean_rule {r : IptRule} {op : String} (hop : OneLine op) (h : RuleLine r) :
    OneLine (r.text op) ∧ EndsText (r.text op) := by
  obtain ⟨head, hhead, htext⟩ := text_rule hop h
  rw [htext]
  exact ⟨hhead.append (oneLine_of_clean h.target.1), .append _ (ends_of_clean h.target.1 h.target.2)⟩

theorem clean_cmd {cmd : Cmd} (h : CmdLine cmd) : OneLine cmd.text ∧ Begins cmd.text ∧ EndsText cmd.text := by
  have hop : ∀ atHead, OneLine (addOp atHead) := by decide
  cases cmd with
  | sysctl args =>
    exact ⟨OneLine.append (by decide) (oneLine_of_clean h.1), Begins.append (by decide) _,
      .append _ (ends_of_clean h.1 h.2)⟩
  | ip args =>
    exact ⟨OneLine.append (by decide) (oneLine_of_clean h.1), Begins.append (by decide) _,
      .append _ (ends_of_clean h.1 h.2)⟩
  | add atHead r =>
    have hr := clean_rule (hop atHead) h
    exact ⟨OneLine.append (by decide) hr.1, Begins.append (by decide) _, .append _ hr.2⟩
  | delete r =>
    have hr : OneLine (r.text "-D") ∧ EndsText (r.text "-D") := clean_rule (by decide) h
    exact ⟨OneLine.append (by decide) hr.1, Begins.append (by decide) _, .append _ hr.2⟩
  | xkeen atHead r =>
    have hcheck : OneLine (r.text "-C") ∧ EndsText (r.text "-C") := clean_rule (by decide) h
    have hadd := clean_rule (hop atHead) h
    exact ⟨(((OneLine.append (by decide) hcheck.1).append (by decide)).append hadd.1).append (by decide),
      (((Begins.append (by decide) _).append _).append _).append _, .append _ (by decide)⟩

theorem clean_hook {h : Hook} (hcmd : CmdLine h.cmd) : Clean (hookEntry h).2 := by
  obtain ⟨hline, hbegins, hends⟩ := clean_cmd hcmd
  unfold hookEntry
  dsimp only
  split
  · exact clean_of_ends (hline.append (by decide)) (hbegins.append _) (.append _ (by decide))
  · simpa using clean_of_ends hline hbegins hends

/-! ### The node's lines -/

theorem ifLine_some {name : String} {negated : Bool} (h : OneLine name) :
    ∀ m ∈ (some ⟨name, negated⟩ : Option IfMatch), OneLine m.name :=
  fun _ hm => Option.some.inj hm ▸ h

theorem ifLine_none : ∀ m ∈ (none : Option IfMatch), OneLine m.name := fun _ h => nomatch h

theorem cmdLine_lanHooks {n : Node} (hiface : OneLine n.lanIface) (hub : Hub) (reach : List Prefix) :
    ∀ h ∈ lanHooks hub n reach, CmdLine h.cmd := by
  have htunnel : ∀ negated, ∀ m ∈ (some ⟨"%i", negated⟩ : Option IfMatch), OneLine m.name :=
    fun _ => ifLine_some (by decide)
  have hnone : ∀ mark ∈ (none : Option String), OneLine mark := fun _ h => nomatch h
  have haccept : Clean "ACCEPT" ∧ "ACCEPT" ≠ "" := ⟨Solid.clean (by decide), by decide⟩
  have hmasquerade : Clean "MASQUERADE" ∧ "MASQUERADE" ≠ "" := ⟨Solid.clean (by decide), by decide⟩
  have hsize : Clean (IptTarget.setMSS 1280).text ∧ (IptTarget.setMSS 1280).text ≠ "" := by
    have hnum := (solid_nat 1280).clean
    have hne : toString (1280 : Nat) ≠ "" := by decide
    unfold IptTarget.text
    exact ⟨clean_of_ends (OneLine.append (by decide) (oneLine_of_clean hnum)) (Begins.append (by decide) _)
      (.append _ (ends_of_clean hnum hne)), by simp⟩
  have hforward : CmdLine (.sysctl "net.ipv4.ip_forward=1") := ⟨Solid.clean (by decide), by decide⟩
  have hpool : RuleLine (poolRule hub) := ⟨ifLine_none, htunnel _, hnone, hmasquerade⟩
  have hreach : ∀ s, RuleLine (reachRule n s) := fun s => ⟨ifLine_none, ifLine_some hiface, hnone, hmasquerade⟩
  have hout : RuleLine outOfTunnel := ⟨htunnel _, htunnel _, hnone, haccept⟩
  have hin : RuleLine intoTunnel := ⟨htunnel _, htunnel _, hnone, haccept⟩
  have hinput : RuleLine inputRule := ⟨htunnel _, ifLine_none, hnone, haccept⟩
  have hclampF : RuleLine clampForward := ⟨ifLine_none, htunnel _, hnone, hsize⟩
  have hclampO : RuleLine clampOutput := ⟨ifLine_none, htunnel _, hnone, hsize⟩
  unfold lanHooks
  simp only [List.forall_mem_append, List.forall_mem_cons, List.forall_mem_map]
  exact ⟨⟨⟨⟨⟨hforward, hpool, fun _ h => nomatch h⟩, fun s _ => hreach s⟩, hout, hin, hinput, hinput, hclampF,
    hclampO, hclampF, hclampO, hpool, fun _ h => nomatch h⟩, fun s _ => hreach s⟩, hout, hin, fun _ h => nomatch h⟩

theorem addr_text_ne (a : Addr) : a.text ≠ "" := by
  intro h
  by_cases hvalid : a.isValid = true
  · have hparse := parseAddr_text hvalid
    have hnone : parseAddr "".toList = none := by decide
    rw [h, hnone] at hparse
    exact absurd hparse (by simp)
  · cases a with
    | invalid => exact absurd h (by decide)
    | v4 a | v6 a => exact hvalid rfl

theorem cmdLine_exitHooks (hub : Hub) (n : Node) : ∀ h ∈ exitHooks hub n, CmdLine h.cmd := by
  have hdev : ∀ negated, ∀ m ∈ (some ⟨nodeExitDev, negated⟩ : Option IfMatch), OneLine m.name :=
    fun _ => ifLine_some (by decide)
  have hnone : ∀ mark ∈ (none : Option String), OneLine mark := fun _ h => nomatch h
  have haccept : Clean "ACCEPT" ∧ "ACCEPT" ≠ "" := ⟨Solid.clean (by decide), by decide⟩
  have hof : ∀ s : String, OneLine s → Begins s → EndsText s → s ≠ "" → Clean s ∧ s ≠ "" :=
    fun s hline hbegins hends hne => ⟨clean_of_ends hline hbegins hends, hne⟩
  -- the targets are closed texts, the rules are made of them
  have htarget : ∀ t ∈ [IptTarget.connSetMark nodeExitMark, .connRestoreMark, .clampMSS, .setDSCP nodeXkeenDSCP,
      .setMark nodeExitMark], Clean t.text ∧ t.text ≠ "" := by
    simp only [List.forall_mem_cons]
    refine ⟨hof _ ?_ ?_ ?_ ?_, hof _ ?_ ?_ ?_ ?_, hof _ ?_ ?_ ?_ ?_, hof _ ?_ ?_ ?_ ?_, hof _ ?_ ?_ ?_ ?_,
      fun _ h => nomatch h⟩ <;> decide
  simp only [List.forall_mem_cons] at htarget
  obtain ⟨hset, hrestore, hclamp, hdscp, hmark, -⟩ := htarget
  have hin : RuleLine exitIn := ⟨hdev _, ifLine_none, hnone, haccept⟩
  have hout : RuleLine exitOut := ⟨ifLine_none, hdev _, hnone, haccept⟩
  have hmarkRule : RuleLine exitMark := ⟨hdev _, ifLine_none, hnone, hset⟩
  have hrestoreRule : RuleLine exitRestore := ⟨hdev _, ifLine_none, hnone, hrestore⟩
  have hclampRule : RuleLine exitClamp := ⟨ifLine_none, hdev _, hnone, hclamp⟩
  have hxkeen : RuleLine xkeenDSCP := ⟨hdev _, ifLine_none, hnone, hdscp⟩
  have hxkeenMark : RuleLine xkeenMark :=
    ⟨ifLine_none, ifLine_none, fun _ h => Option.some.inj h ▸ (by decide : OneLine nodeExitMark), hmark⟩
  -- only two commands carry addresses
  have hlink : CmdLine (.ip ("link add " ++ nodeExitDev ++ " type ipip local " ++ n.address.text ++ " remote " ++
      hub.address.text)) := by
    have hhead : OneLine ("link add " ++ nodeExitDev ++ " type ipip local ") := by decide
    have hbegins : Begins ("link add " ++ nodeExitDev ++ " type ipip local ") := by decide
    refine ⟨clean_of_ends ?_ ((hbegins.append _).append _ |>.append _) (.append _ (ends_of_clean (clean_addr _)
      (addr_text_ne _))), by simp⟩
    exact ((hhead.append (oneLine_of_clean (clean_addr _))).append (by decide)).append (oneLine_of_clean (clean_addr _))
  have haddr : CmdLine (.ip ("addr replace " ++ n.address.text ++ "/32 dev " ++ nodeExitDev)) := by
    refine ⟨clean_of_ends ?_ ((Begins.append (by decide) _).append _ |>.append _) (.append _ (by decide)), by simp⟩
    exact ((OneLine.append (by decide) (oneLine_of_clean (clean_addr _))).append (by decide)).append (by decide)
  -- the other commands are closed texts
  have hwords : ∀ s ∈ ["link set " ++ nodeExitDev ++ " up",
      "rule add " ++ ("fwmark " ++ nodeExitMark ++ " lookup " ++ nodeExitTable ++ " pref " ++ nodeExitPref),
      "route replace default dev " ++ nodeExitDev ++ " table " ++ nodeExitTable,
      "route flush table " ++ nodeExitTable,
      "rule del " ++ ("fwmark " ++ nodeExitMark ++ " lookup " ++ nodeExitTable ++ " pref " ++ nodeExitPref),
      "link del " ++ nodeExitDev, "net.ipv4.conf." ++ nodeExitDev ++ ".rp_filter=2"], Clean s ∧ s ≠ "" := by
    simp only [List.forall_mem_cons]
    refine ⟨hof _ ?_ ?_ ?_ ?_, hof _ ?_ ?_ ?_ ?_, hof _ ?_ ?_ ?_ ?_, hof _ ?_ ?_ ?_ ?_, hof _ ?_ ?_ ?_ ?_,
      hof _ ?_ ?_ ?_ ?_, hof _ ?_ ?_ ?_ ?_, fun _ h => nomatch h⟩ <;> decide
  simp only [List.forall_mem_cons] at hwords
  obtain ⟨hup, hruleAdd, hroute, hflush, hruleDel, hdel, hfilter, -⟩ := hwords
  unfold exitHooks
  simp only [List.forall_mem_cons]
  exact ⟨hlink, haddr, hup, hfilter, hin, hout, hmarkRule, hrestoreRule, hclampRule, hruleAdd, hroute, hflush,
    hruleDel, hclampRule, hrestoreRule, hmarkRule, hin, hout, hdel, hxkeen, hxkeen, hxkeenMark, hxkeenMark,
    fun _ h => nomatch h⟩

/-! ### The file -/

theorem mem_nodeAllowedIPs {hub : Hub} {reach : List Prefix} {s : String} (h : s ∈ nodeAllowedIPs hub reach) :
    ∃ p : Prefix, s = p.text := by
  have hfold : ∀ (l : List Prefix) (out : List String), (∀ s ∈ out, ∃ p : Prefix, s = p.text) →
      ∀ s ∈ l.foldl (fun out s => if s.text ∈ out then out else out ++ [s.text]) out, ∃ p : Prefix, s = p.text := by
    intro l
    induction l with
    | nil => exact fun _ hout => hout
    | cons p l ih =>
      intro out hout
      refine ih _ fun s hs => ?_
      dsimp only at hs
      split at hs
      · exact hout s hs
      · rcases List.mem_append.mp hs with hs | hs
        · exact hout s hs
        · exact ⟨p, List.mem_singleton.mp hs⟩
  exact hfold reach _ (fun s hs => ⟨hub.poolCIDR, List.mem_singleton.mp hs⟩) s h

theorem listed_nodeAllowedIPs {hub : Hub} {reach : List Prefix} {s : String} (h : s ∈ nodeAllowedIPs hub reach) :
    (Clean s ∧ s ≠ "") ∧ ',' ∉ s.toList := by
  obtain ⟨p, rfl⟩ := mem_nodeAllowedIPs h
  have hp := clean_prefix p
  exact ⟨hp, (prefix_listed p).2⟩

/-- The texts of a home server's row that its file prints. -/
structure NodeFileTexts (n : Node) : Prop where
  priv : Clean n.keys.priv
  preshared : Clean n.preshared
  iface : OneLine n.lanIface

/-- A home server's file up to its peer. -/
def nodeSelfText (hub : Hub) (n : Node) (reach : List Prefix) : String :=
  "[Interface]\n" ++ confLine "Address" (n.address.text ++ "/32") ++
    confLine "PrivateKey" (if n.keys.priv = "" then nodePrivatePlaceholder else n.keys.priv) ++
    paramsBlock hub.params ++ String.join ((nodeHooks hub n reach).map Hook.text)

theorem renderNode_peer (hub : Hub) (n : Node) (reach : List Prefix) :
    renderNode hub n reach = nodeSelfText hub n reach ++ peerText hub n.preshared (nodeAllowedIPs hub reach) := by
  unfold renderNode nodeSelfText peerText
  simp only [String.append_assoc]

theorem lines_hooks {hub : Hub} {n : Node} (hiface : OneLine n.lanIface) (reach : List Prefix) :
    Lines (String.join ((nodeHooks hub n reach).map Hook.text))
      ((nodeHooks hub n reach).map fun h => .entry (hookEntry h).1 (hookEntry h).2) := by
  rw [List.map_eq_flatMap (f := fun h => Item.entry (hookEntry h).1 (hookEntry h).2)]
  refine Lines.join fun h hh => ?_
  have hcmd : CmdLine h.cmd := by
    rcases List.mem_append.mp hh with hh | hh
    · exact cmdLine_lanHooks hiface hub reach h hh
    · exact cmdLine_exitHooks hub n h hh
  refine lines_confLine ?_ (clean_hook hcmd)
  split <;> decide

/-- **A home server's file reads back.** -/
theorem read_renderNode {hub : Hub} {n : Node} (hhub : HubTexts hub) (htexts : NodeFileTexts n) (reach : List Prefix) :
    read (renderNode hub n reach) =
      some ⟨nodeSelf hub n reach, [hubPeer hub n.preshared (nodeAllowedIPs hub reach)]⟩ := by
  refine read_of_parse (parse_of_lines ?_) rfl fun p hp => List.mem_singleton.mp hp ▸ rfl
  have hkey : Clean (if n.keys.priv = "" then nodePrivatePlaceholder else n.keys.priv) := by
    split
    · exact Solid.clean (by decide)
    · exact htexts.priv
  have hself : Lines (nodeSelfText hub n reach) (nodeSelf hub n reach).items := by
    have h := (((lines_header.append (lines_confLine (k := "Address") (by decide) (clean_host n.address).1)).append
      (lines_confLine (k := "PrivateKey") (by decide) hkey)).append (lines_params hub.params)).append
      (@lines_hooks hub n htexts.iface reach)
    have hitems : (nodeSelf hub n reach).items = [.header "Interface"] ++
        [.entry "Address" (n.address.text ++ "/32")] ++
        [.entry "PrivateKey" (if n.keys.priv = "" then nodePrivatePlaceholder else n.keys.priv)] ++
        ((paramsEntries hub.params).map fun e => .entry e.1 e.2) ++
        (nodeHooks hub n reach).map fun h => .entry (hookEntry h).1 (hookEntry h).2 := by
      simp [Section.items, nodeSelf]
    rw [hitems]
    unfold nodeSelfText
    exact h
  rw [renderNode_peer, List.flatMap_cons, List.flatMap_cons, List.flatMap_nil, List.append_nil]
  exact hself.append (lines_hubPeer hhub htexts.preshared fun s hs => (listed_nodeAllowedIPs hs).1)

/-! ## Pairs -/

/-- What both ends have to set alike. -/
def sharedKeys : List String := ["Jc", "Jmin", "Jmax", "S1", "S2", "H1", "H2", "H3", "H4"]

/-- What the hub's row fixes in every file. -/
structure SameHub (hub hub' : Hub) : Prop where
  endpoint : hub.endpoint = hub'.endpoint
  address : hub.address = hub'.address
  pool : hub.poolCIDR = hub'.poolCIDR
  keys : hub.keys = hub'.keys
  params : hub.params = hub'.params

theorem value_preshared (pub preshared : String) (rest : List (String × String))
    (hrest : rest.lookup "PresharedKey" = none) :
    (("PublicKey", pub) :: ((if preshared ≠ "" then [("PresharedKey", preshared)] else []) ++ rest)).lookup
      "PresharedKey" = if preshared = "" then none else some preshared := by
  by_cases h : preshared = ""
  · simp [h, List.lookup_cons, hrest]
  · simp [h, List.lookup_cons]

theorem value_hubPeer_preshared (hub : Hub) (preshared : String) (ips : List String) :
    value (hubPeer hub preshared ips) "PresharedKey" = if preshared = "" then none else some preshared :=
  value_preshared _ _ _ rfl

theorem value_peerSection_preshared (pub preshared allowed : String) :
    value (peerSection pub preshared allowed) "PresharedKey" = if preshared = "" then none else some preshared :=
  value_preshared _ _ _ rfl

theorem allowed_hubPeer {hub : Hub} {preshared : String} {ips : List String} (hne : ips ≠ [])
    (hips : ∀ s ∈ ips, Clean s ∧ ',' ∉ s.toList) : allowed (hubPeer hub preshared ips) = ips := by
  have hvalue : value (hubPeer hub preshared ips) "AllowedIPs" = some (", ".intercalate ips) := by
    unfold value hubPeer
    split <;> simp [List.lookup_cons]
  unfold allowed
  rw [hvalue]
  exact fields_intercalate hne hips

/-- The hub's address reads back from its own file. -/
theorem address_hubEnd {hub : Hub} {nodes : List Node} {clients : List Client}
    (hvalid : (⟨hub.address, hub.poolCIDR.bits⟩ : Prefix).isValid = true) :
    address (hubEnd hub nodes clients).self = some hub.address := by
  have htext : hub.address.text ++ "/" ++ toString hub.poolCIDR.bits =
      (⟨hub.address, hub.poolCIDR.bits⟩ : Prefix).text := by
    rw [Prefix.text, if_pos hvalid]
  have hparse := parsePrefix_text hvalid
  rw [← htext] at hparse
  exact congrArg (Option.map Prefix.addr) hparse

theorem address_host {s : Section} {a : Addr} (hvalue : value s "Address" = some (a.text ++ "/32"))
    (ha : a.isValid = true) : address s = some a := by
  unfold address
  rw [hvalue, Option.bind_some, parsePrefix_host, if_pos ha]
  rfl

theorem isValid_of_is4 {a : Addr} (h : a.is4 = true) : a.isValid = true := by
  cases a <;> first | rfl | exact absurd h (by decide)

section Pairs

theorem forall_sharedKeys {p : String → Prop} : (∀ k ∈ sharedKeys, p k) ↔
    p "Jc" ∧ p "Jmin" ∧ p "Jmax" ∧ p "S1" ∧ p "S2" ∧ p "H1" ∧ p "H2" ∧ p "H3" ∧ p "H4" := by
  simp [sharedKeys]

theorem lookup_params (p : ObfuscationParams) : ∀ k ∈ sharedKeys, ((paramsEntries p).lookup k).isSome = true :=
  forall_sharedKeys.mpr ⟨rfl, rfl, rfl, rfl, rfl, rfl, rfl, rfl, rfl⟩

theorem value_hub (hub : Hub) : ∀ k ∈ sharedKeys,
    value (interfaceSection hub) k = (paramsEntries hub.params).lookup k :=
  forall_sharedKeys.mpr ⟨rfl, rfl, rfl, rfl, rfl, rfl, rfl, rfl, rfl⟩

theorem value_client (hub : Hub) (c : Client) (granted : List Grant) : ∀ k ∈ sharedKeys,
    value (clientSelf hub c granted) k = (paramsEntries hub.params).lookup k := by
  by_cases hdns : clientDNS hub c granted = ""
  · refine forall_sharedKeys.mpr ?_
    simp [value, clientSelf, hdns, List.lookup_cons]
  · refine forall_sharedKeys.mpr ?_
    simp [value, clientSelf, hdns, List.lookup_cons]

theorem value_node (hub : Hub) (n : Node) (reach : List Prefix) : ∀ k ∈ sharedKeys,
    value (nodeSelf hub n reach) k = (paramsEntries hub.params).lookup k :=
  forall_sharedKeys.mpr ⟨rfl, rfl, rfl, rfl, rfl, rfl, rfl, rfl, rfl⟩

variable {pubOf : String → String} {hub hub' : Hub} {nodes : List Node} {clients : List Client}

/-- What is left to say of each kind of end: the peer that the hub lists, and that the end lets the hub through. -/
theorem pair_of {peer self : Section} {pub preshared : String} {a : Addr} {entries ips : List String}
    (hsame : SameHub hub hub') (hpub : pubOf hub.keys.priv = hub.keys.pub)
    (hvalid : (⟨hub.address, hub.poolCIDR.bits⟩ : Prefix).isValid = true)
    (hpeer : peer ∈ (hubEnd hub nodes clients).peers) (hentries : peer =
      peerSection pub preshared (", ".intercalate ((a.text ++ "/32") :: entries)))
    (hlisted : ∀ s ∈ entries, Clean s ∧ ',' ∉ s.toList) (ha : a.is4 = true)
    (hself : ∃ priv, value self "PrivateKey" = some priv ∧ pubOf priv = pub)
    (haddr : value self "Address" = some (a.text ++ "/32"))
    (hparams : ∀ k ∈ sharedKeys, value self k = (paramsEntries hub'.params).lookup k)
    (hne : ips ≠ []) (hips : ∀ s ∈ ips, Clean s ∧ ',' ∉ s.toList) (hcovers : coveredBy ips hub'.address = true) :
    Pair pubOf sharedKeys (hubEnd hub nodes clients) ⟨self, [hubPeer hub' preshared ips]⟩ := by
  subst hentries
  obtain ⟨priv, hpriv, hkey⟩ := hself
  refine ⟨_, hpeer, _, List.mem_singleton.mpr rfl, ?_, ?_, ?_, ?_⟩
  · -- the hub's peer is the other end
    refine ⟨⟨priv, hpriv, congrArg some hkey.symm⟩, a, address_host haddr (isValid_of_is4 ha), ?_⟩
    have hcons : ∀ s ∈ (a.text ++ "/32") :: entries, Clean s ∧ ',' ∉ s.toList :=
      List.forall_mem_cons.mpr ⟨host_listed a, hlisted⟩
    rw [allowed_peerSection (by simp) hcons]
    exact coveredBy_host.mpr (.inl (host_self.mpr (isValid_of_is4 ha)))
  · -- the other end's only peer is the hub
    refine ⟨⟨hub.keys.priv, rfl, ?_⟩, hub.address, address_hubEnd hvalid, ?_⟩
    · rw [hpub, hsame.keys]
      rfl
    · rw [allowed_hubPeer hne hips, hsame.address]
      exact hcovers
  · rw [value_peerSection_preshared, value_hubPeer_preshared]
  · intro k hk
    rw [hparams k hk]
    have hvalue : value (hubEnd hub nodes clients).self k = _ := value_hub hub k hk
    rw [hvalue, hsame.params]
    exact ⟨lookup_params _ k hk, rfl⟩

/-- **A device and the hub.** The hub's file and a device's, printed at different times, make a tunnel. -/
theorem pair_client {c c' : Client} {granted : List Grant} (hsame : SameHub hub hub')
    (hpub : pubOf hub.keys.priv = hub.keys.pub)
    (hvalid : (⟨hub.address, hub.poolCIDR.bits⟩ : Prefix).isValid = true) (hhub4 : hub.address.is4 = true)
    (hmem : c ∈ clients) (hkeys : c.keys = c'.keys) (haddr : c.address = c'.address)
    (hpsk : c.preshared = c'.preshared) (hcpub : pubOf c'.keys.priv = c'.keys.pub) (hc4 : c'.address.is4 = true) :
    Pair pubOf sharedKeys (hubEnd hub nodes clients)
      ⟨clientSelf hub' c' granted, [hubPeer hub' c'.preshared (clientAllowedIPs hub' granted)]⟩ := by
  have hne : clientAllowedIPs hub' granted ≠ [] := by
    unfold clientAllowedIPs
    dsimp only
    split <;> simp
  have hcovers : coveredBy (clientAllowedIPs hub' granted) hub'.address = true :=
    coveredBy_hub.mpr (.inl (hsame.address ▸ hhub4))
  have hentry : clientSection c = peerSection c'.keys.pub c'.preshared
      (", ".intercalate ((c'.address.text ++ "/32") :: [])) := by
    rw [clientSection, hkeys, haddr, hpsk]
    simp
  have hpeer : clientSection c ∈ (hubEnd hub nodes clients).peers :=
    List.mem_append_right _ (List.mem_map_of_mem hmem)
  exact pair_of hsame hpub hvalid hpeer hentry (fun _ h => absurd h List.not_mem_nil) hc4 ⟨_, rfl, hcpub⟩ rfl
    (value_client hub' c' granted) hne (fun s hs => clean_entry hs) hcovers

/-- **A home server and the hub.** -/
theorem pair_node {n n' : Node} {reach : List Prefix} (hsame : SameHub hub hub')
    (hpub : pubOf hub.keys.priv = hub.keys.pub)
    (hvalid : (⟨hub.address, hub.poolCIDR.bits⟩ : Prefix).isValid = true)
    (hpool : hub.poolCIDR.contains hub.address = true) (hmem : n ∈ nodes) (hhub : n.isHub = false)
    (hkeys : n.keys.pub = n'.keys.pub) (haddr : n.address = n'.address) (hpsk : n.preshared = n'.preshared)
    (hpriv : n'.keys.priv ≠ "") (hnpub : pubOf n'.keys.priv = n'.keys.pub) (hn4 : n'.address.is4 = true) :
    Pair pubOf sharedKeys (hubEnd hub nodes clients)
      ⟨nodeSelf hub' n' reach, [hubPeer hub' n'.preshared (nodeAllowedIPs hub' reach)]⟩ := by
  have hcovers : coveredBy (nodeAllowedIPs hub' reach) hub'.address = true :=
    nodeAllowedIPs_covers.mpr (.inl (by rw [← hsame.pool, ← hsame.address]; exact hpool))
  have hne : nodeAllowedIPs hub' reach ≠ [] := fun h => by
    rw [h] at hcovers
    exact absurd hcovers (by simp [coveredBy])
  have hentry : nodeSection n = peerSection n'.keys.pub n'.preshared
      (", ".intercalate ((n'.address.text ++ "/32") :: n.subnets.map Prefix.text)) := by
    rw [nodeSection, hkeys, hpsk, ← haddr]
    rfl
  have hpeer : nodeSection n ∈ (hubEnd hub nodes clients).peers :=
    List.mem_append_left _ (List.mem_map_of_mem (List.mem_filter.mpr ⟨hmem, by simp [hhub]⟩))
  have hlisted : ∀ s ∈ n.subnets.map Prefix.text, Clean s ∧ ',' ∉ s.toList := by
    intro s hs
    obtain ⟨p, -, rfl⟩ := List.mem_map.mp hs
    exact prefix_listed p
  have hself : ∃ priv, value (nodeSelf hub' n' reach) "PrivateKey" = some priv ∧ pubOf priv = n'.keys.pub :=
    ⟨_, by unfold value nodeSelf; rw [if_neg hpriv]; rfl, hnpub⟩
  exact pair_of hsame hpub hvalid hpeer hentry hlisted hn4 hself rfl (value_node hub' n' reach) hne
    (fun s hs => ⟨(listed_nodeAllowedIPs hs).1.1, (listed_nodeAllowedIPs hs).2⟩) hcovers

end Pairs

end Awg
end BeautyAwg
