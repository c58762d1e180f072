import BeautyAwg.Lib.NetipText
import BeautyAwg.NodeAgent.Poll

/-!
# `NodeAgent.Correctness.KeyText`: the private key in a node's file

The panel does not know a node's private key and prints a place holder; the agent replaces every occurrence
of it with the key. `fullConfig_renderNode`: this gives the file that the panel would have printed with the
key, because the place holder is nowhere else in the file.

## Contents
- **Texts.** Addresses and numbers have no `_`; a stored text is followed by a blank or a line break, so no
  occurrence runs over its end.
- **Lines.** `keyClear_confLine`, `keyClear_rule`, `keyClear_hook`; `cmdClear_lanHooks`, `cmdClear_exitHooks`.
- **The file.** `fullConfig_renderNode`.
-/

namespace BeautyAwg
namespace NodeAgent

open Netip Awg Replace

/-! ## Texts -/

/-- The place holder does not begin in the text, whatever follows it. -/
abbrev KeyClear (s : String) : Prop := Clear nodePrivatePlaceholder s

/-- A text without an underscore is clear of the placeholder. -/
theorem keyClear_plain {s : String} (h : '_' ∉ s.toList) : KeyClear s := clear_of_head rfl h

theorem underscore_not_digit : ∀ d < 16, '_' ≠ Nat.digitChar d := by decide

theorem keyClear_addr (a : Addr) : KeyClear a.text :=
  keyClear_plain (not_mem_text underscore_not_digit (by decide) (by decide) (by decide) a)

theorem keyClear_net (p : Prefix) : KeyClear p.text :=
  keyClear_plain (not_mem_prefix_text underscore_not_digit (by decide) (by decide) (by decide) (by decide)
    (by decide) p)

theorem keyClear_nat (n : Nat) : KeyClear (toString n) := by
  apply keyClear_plain
  rw [Nat.toString_eq_repr, Nat.toList_repr]
  exact not_mem_toDigits (by omega) (by omega) underscore_not_digit

theorem keyClear_int (n : Int) : KeyClear (toString n) := by
  cases n with
  | ofNat n => exact keyClear_nat n
  | negSucc n => exact Clear.append (s := "-") (by decide) (keyClear_nat (n + 1))

/-- A text without the placeholder stays clear before a line break. -/
theorem keyClear_line {s : String} (h : ¬ Occurs nodePrivatePlaceholder s) : KeyClear (s ++ "\n") :=
  clear_field (x := '\n') (by decide) (by decide) rfl h

/-- A text without the placeholder stays clear before a blank. -/
theorem keyClear_word {s : String} (h : ¬ Occurs nodePrivatePlaceholder s) : KeyClear (s ++ " ") :=
  clear_field (x := ' ') (by decide) (by decide) rfl h

/-! ## Lines -/

/-- A line of the config is clear when its key and its value are. -/
theorem keyClear_confLine {key value : String} (hkey : KeyClear (key ++ " = ")) (hvalue : KeyClear (value ++ "\n")) :
    KeyClear (confLine key value) := by
  unfold confLine
  rw [String.append_assoc]
  exact hkey.append hvalue

/-- The obfuscation block is clear: names, numbers and breaks. -/
theorem keyClear_params (p : ObfuscationParams) : KeyClear (paramsBlock p) := by
  have hend : KeyClear "\n" := by decide
  have hint : ∀ (key : String) (n : Int), KeyClear (key ++ " = ") → KeyClear (confLine key (toString n)) :=
    fun key n hkey => keyClear_confLine hkey ((keyClear_int n).append hend)
  have hnat : ∀ (key : String) (n : Nat), KeyClear (key ++ " = ") → KeyClear (confLine key (toString n)) :=
    fun key n hkey => keyClear_confLine hkey ((keyClear_nat n).append hend)
  exact ((((((((hint "Jc" p.jc (by decide)).append (hint "Jmin" p.jmin (by decide))).append
    (hint "Jmax" p.jmax (by decide))).append (hint "S1" p.s1 (by decide))).append
    (hint "S2" p.s2 (by decide))).append (hnat "H1" _ (by decide))).append
    (hnat "H2" _ (by decide))).append (hnat "H3" _ (by decide))).append (hnat "H4" _ (by decide))

/-- The match of an interface, if there is one. -/
def IfClear (o : Option IfMatch) : Prop := ∀ m ∈ o, ¬ Occurs nodePrivatePlaceholder m.name

/-- A rule whose names, marks and target let no place holder begin. -/
structure RuleClear (r : IptRule) : Prop where
  inIf : IfClear r.inIf
  outIf : IfClear r.outIf
  connmark : ∀ mark ∈ r.connmark, KeyClear mark
  target : KeyClear r.target.text

theorem keyClear_ifMatch {m : IfMatch} {flag : String} (hflag : KeyClear flag)
    (hname : ¬ Occurs nodePrivatePlaceholder m.name) : KeyClear (m.text flag) := by
  have hneg : KeyClear (if m.negated then "! " else "") := by
    split <;> exact keyClear_plain (by simp)
  unfold IfMatch.text
  -- the name is a stored text: it is clear only together with the blank after it
  rw [@String.append_assoc _ m.name]
  exact ((hneg.append hflag).append (keyClear_plain (by simp))).append (keyClear_word hname)

theorem keyClear_elim {α : Type} {o : Option α} {f : α → String} (h : ∀ x ∈ o, KeyClear (f x)) :
    KeyClear (o.elim "" f) := by
  cases o with
  | none => exact Clear.empty
  | some x => exact h x rfl

/-- The text of a rule is clear when its parts are. -/
theorem keyClear_rule {r : IptRule} {op : String} (hop : KeyClear op) (h : RuleClear r) : KeyClear (r.text op) := by
  have htable : KeyClear r.table.text := by
    cases r.table <;> exact keyClear_plain (by simp [IptTable.text])
  have hchain : KeyClear r.chain.text := by
    cases r.chain <;> exact keyClear_plain (by simp [IptChain.text])
  have hblank : KeyClear " " := keyClear_plain (by simp)
  have hsrc : KeyClear (r.src.elim "" fun p => "-s " ++ p.text ++ " ") :=
    keyClear_elim fun p _ => (Clear.append (keyClear_plain (by simp)) (keyClear_net p)).append hblank
  have hin : KeyClear (r.inIf.elim "" (IfMatch.text "-i")) :=
    keyClear_elim fun m hm => keyClear_ifMatch (keyClear_plain (by simp)) (h.inIf m hm)
  have hout : KeyClear (r.outIf.elim "" (IfMatch.text "-o")) :=
    keyClear_elim fun m hm => keyClear_ifMatch (keyClear_plain (by simp)) (h.outIf m hm)
  have hsyn : KeyClear (if r.syn then "-p tcp --tcp-flags SYN,RST SYN " else "") := by
    split <;> exact keyClear_plain (by simp)
  have hmark : KeyClear (r.connmark.elim "" fun mark => "-m connmark --mark " ++ mark ++ " ") :=
    keyClear_elim fun mark hm => (Clear.append (keyClear_plain (by simp)) (h.connmark mark hm)).append hblank
  have hjump : KeyClear "-j " := keyClear_plain (by simp)
  unfold IptRule.text
  exact ((((((((((htable.append hop).append hblank).append hchain).append hblank).append hsrc).append hin).append
    hout).append hsyn).append hmark).append hjump).append h.target

/-! ### Commands -/

/-- What a command says beside fixed words lets no place holder begin. -/
def CmdClear : Cmd → Prop
  | .sysctl args | .ip args => KeyClear args
  | .add _ r | .delete r | .xkeen _ r => RuleClear r

/-- The line of a hook is clear when its command is. -/
theorem keyClear_hook {h : Hook} (hcmd : CmdClear h.cmd) : KeyClear h.text := by
  have hkey : KeyClear ((if h.up then "PostUp" else "PostDown") ++ " = ") := by
    split <;> exact keyClear_plain (by simp)
  have hend : KeyClear (if h.tolerated then " || true" else "") := by
    split <;> exact keyClear_plain (by simp)
  have hop : ∀ atHead, KeyClear (addOp atHead) := by
    intro atHead
    cases atHead <;> exact keyClear_plain (by simp [addOp])
  have hword : KeyClear "iptables " := keyClear_plain (by simp)
  have htext : KeyClear h.cmd.text := by
    unfold Cmd.text
    revert hcmd
    cases h.cmd with
    | sysctl args => exact fun hargs => Clear.append (keyClear_plain (by simp)) hargs
    | ip args => exact fun hargs => Clear.append (keyClear_plain (by simp)) hargs
    | add atHead r => exact fun hr => hword.append (keyClear_rule (hop atHead) hr)
    | delete r => exact fun hr => hword.append (keyClear_rule (keyClear_plain (by simp)) hr)
    | xkeen atHead r =>
      exact fun hr => (((Clear.append (keyClear_plain (by simp)) (keyClear_rule (keyClear_plain (by simp))
        hr)).append (keyClear_plain (by simp))).append (keyClear_rule (hop atHead) hr)).append
        (keyClear_plain (by simp))
  exact keyClear_confLine hkey ((htext.append hend).append (keyClear_plain (by simp)))

/-! ### The node's rules -/

theorem not_occurs_tunnel : ¬ Occurs nodePrivatePlaceholder "%i" := not_occurs_of_head (x := '_') rfl (by simp)

theorem not_occurs_exitDev : ¬ Occurs nodePrivatePlaceholder nodeExitDev :=
  not_occurs_of_head (x := '_') rfl (by simp [nodeExitDev])

theorem keyClear_exitDev : KeyClear nodeExitDev := keyClear_plain (by simp [nodeExitDev])

theorem keyClear_exitMark : KeyClear nodeExitMark := keyClear_plain (by simp [nodeExitMark])

theorem keyClear_exitTable : KeyClear nodeExitTable := keyClear_plain (by simp [nodeExitTable])

theorem ifClear_none : IfClear none := fun _ h => nomatch h

theorem ifClear_some {name : String} {negated : Bool} (h : ¬ Occurs nodePrivatePlaceholder name) :
    IfClear (some ⟨name, negated⟩) := by
  rintro m ⟨⟩
  exact h

/-- The rules of a node's file are clear when the interface names in them are. -/
theorem ruleClear_accept {chain : IptChain} {inIf outIf : Option IfMatch} (hin : IfClear inIf) (hout : IfClear outIf) :
    RuleClear (acceptRule chain inIf outIf) where
  inIf := hin
  outIf := hout
  connmark _ h := nomatch h
  target := keyClear_plain (s := "ACCEPT") (by simp)

theorem ruleClear_masquerade {src : Prefix} {m : IfMatch} (hname : ¬ Occurs nodePrivatePlaceholder m.name) :
    RuleClear (masqueradeRule src m) where
  inIf := ifClear_none
  outIf := ifClear_some hname
  connmark _ h := nomatch h
  target := keyClear_plain (s := "MASQUERADE") (by simp)

theorem ruleClear_mangle {chain : IptChain} {inIf outIf : Option IfMatch} {syn : Bool} {connmark : Option String}
    {target : IptTarget} (hin : IfClear inIf) (hout : IfClear outIf) (hmark : ∀ mark ∈ connmark, KeyClear mark)
    (htarget : KeyClear target.text) : RuleClear (mangleRule chain inIf outIf syn connmark target) :=
  ⟨hin, hout, hmark, htarget⟩

/-- The hooks for the node's own network are clear when its interface's name is. -/
theorem cmdClear_lanHooks {n : Node} (hiface : ¬ Occurs nodePrivatePlaceholder n.lanIface) (hub : Hub)
    (reach : List Prefix) : ∀ h ∈ lanHooks hub n reach, CmdClear h.cmd := by
  have htunnel : ∀ negated, IfClear (some ⟨"%i", negated⟩) := fun _ => ifClear_some not_occurs_tunnel
  have hforward : KeyClear "net.ipv4.ip_forward=1" := by decide +kernel
  have hpool : RuleClear (poolRule hub) := ruleClear_masquerade not_occurs_tunnel
  have hreach : ∀ s, RuleClear (reachRule n s) := fun _ => ruleClear_masquerade hiface
  have hout : RuleClear outOfTunnel := ruleClear_accept (htunnel _) (htunnel _)
  have hin : RuleClear intoTunnel := ruleClear_accept (htunnel _) (htunnel _)
  have hinput : RuleClear inputRule := ruleClear_accept (htunnel _) ifClear_none
  have hsize : KeyClear (IptTarget.setMSS 1280).text :=
    Clear.append (keyClear_plain (by simp)) (keyClear_nat 1280)
  have hclampF : RuleClear clampForward :=
    ruleClear_mangle ifClear_none (htunnel _) (fun _ h => nomatch h) hsize
  have hclampO : RuleClear clampOutput :=
    ruleClear_mangle ifClear_none (htunnel _) (fun _ h => nomatch h) hsize
  unfold lanHooks
  simp only [List.forall_mem_append, List.forall_mem_cons, List.forall_mem_map]
  exact ⟨⟨⟨⟨⟨hforward, hpool, fun _ h => nomatch h⟩, fun s _ => hreach s⟩, hout, hin, hinput, hinput, hclampF,
    hclampO, hclampF, hclampO, hpool, fun _ h => nomatch h⟩, fun s _ => hreach s⟩, hout, hin, fun _ h => nomatch h⟩

/-- Those for the exit always are. -/
theorem cmdClear_exitHooks (hub : Hub) (n : Node) : ∀ h ∈ exitHooks hub n, CmdClear h.cmd := by
  have hdev : ∀ negated, IfClear (some ⟨nodeExitDev, negated⟩) := fun _ => ifClear_some not_occurs_exitDev
  have hnone : ∀ mark ∈ (none : Option String), KeyClear mark := fun _ h => nomatch h
  have hin : RuleClear exitIn := ruleClear_accept (hdev _) ifClear_none
  have hout : RuleClear exitOut := ruleClear_accept ifClear_none (hdev _)
  have hmark : RuleClear exitMark := ruleClear_mangle (hdev _) ifClear_none hnone
    (Clear.append (s := "CONNMARK --set-mark ") (keyClear_plain (by simp)) keyClear_exitMark)
  have hrestore : RuleClear exitRestore := ruleClear_mangle (hdev _) ifClear_none hnone
    (keyClear_plain (s := "CONNMARK --restore-mark") (by simp))
  have hclamp : RuleClear exitClamp := ruleClear_mangle ifClear_none (hdev _) hnone
    (keyClear_plain (s := "TCPMSS --clamp-mss-to-pmtu") (by simp))
  have hdscp : RuleClear xkeenDSCP := ruleClear_mangle (hdev _) ifClear_none hnone
    (Clear.append (s := "DSCP --set-dscp ") (keyClear_plain (by simp)) (keyClear_plain (by simp [nodeXkeenDSCP])))
  have hxkeen : RuleClear xkeenMark := ruleClear_mangle ifClear_none ifClear_none
    (fun _ h => Option.some.inj h ▸ keyClear_exitMark)
    (Clear.append (s := "MARK --set-mark ") (keyClear_plain (by simp)) keyClear_exitMark)
  have hlink : KeyClear ("link add " ++ nodeExitDev ++ " type ipip local " ++ n.address.text ++ " remote " ++
      hub.address.text) :=
    ((((Clear.append (keyClear_plain (by simp)) keyClear_exitDev).append (keyClear_plain (by simp))).append
      (keyClear_addr _)).append (keyClear_plain (by simp))).append (keyClear_addr _)
  have haddr : KeyClear ("addr replace " ++ n.address.text ++ "/32 dev " ++ nodeExitDev) :=
    ((Clear.append (keyClear_plain (by simp)) (keyClear_addr _)).append (keyClear_plain (by simp))).append
      keyClear_exitDev
  have hup : KeyClear ("link set " ++ nodeExitDev ++ " up") :=
    (Clear.append (keyClear_plain (by simp)) keyClear_exitDev).append (keyClear_plain (by simp))
  have hfilter : KeyClear ("net.ipv4.conf." ++ nodeExitDev ++ ".rp_filter=2") := by decide +kernel
  have hlookup : KeyClear ("fwmark " ++ nodeExitMark ++ " lookup " ++ nodeExitTable ++ " pref " ++ nodeExitPref) :=
    ((((Clear.append (keyClear_plain (by simp)) keyClear_exitMark).append (keyClear_plain (by simp))).append
      keyClear_exitTable).append (keyClear_plain (by simp))).append (keyClear_plain (by simp [nodeExitPref]))
  have hruleAdd := Clear.append (s := "rule add ") (keyClear_plain (by simp)) hlookup
  have hruleDel := Clear.append (s := "rule del ") (keyClear_plain (by simp)) hlookup
  have hroute : KeyClear ("route replace default dev " ++ nodeExitDev ++ " table " ++ nodeExitTable) :=
    ((Clear.append (keyClear_plain (by simp)) keyClear_exitDev).append (keyClear_plain (by simp))).append
      keyClear_exitTable
  have hflush : KeyClear ("route flush table " ++ nodeExitTable) :=
    Clear.append (keyClear_plain (by simp)) keyClear_exitTable
  have hdel : KeyClear ("link del " ++ nodeExitDev) := Clear.append (keyClear_plain (by simp)) keyClear_exitDev
  unfold exitHooks
  simp only [List.forall_mem_cons]
  exact ⟨hlink, haddr, hup, hfilter, hin, hout, hmark, hrestore, hclamp, hruleAdd, hroute, hflush, hruleDel, hclamp,
    hrestore, hmark, hin, hout, hdel, hdscp, hdscp, hxkeen, hxkeen, fun _ h => nomatch h⟩

/-! ## The file -/

/-- The first part of a node's file is clear. -/
theorem keyClear_head (n : Node) : KeyClear (nodeHead n) := by
  have haddr : KeyClear (n.address.text ++ "/32" ++ "\n") :=
    ((keyClear_addr _).append (keyClear_plain (by simp))).append (keyClear_plain (by simp))
  have hline : KeyClear (confLine "Address" (n.address.text ++ "/32")) :=
    keyClear_confLine (keyClear_plain (by simp)) haddr
  exact ((Clear.append (keyClear_plain (by simp)) hline).append (keyClear_plain (by simp))).append
    (keyClear_plain (by simp))

/-- The list of allowed addresses is clear. -/
theorem keyClear_allowedIPs (hub : Hub) (reach : List Prefix) :
    KeyClear (", ".intercalate (nodeAllowedIPs hub reach)) := by
  have hfold : ∀ (ps : List Prefix) (out : List String), (∀ s ∈ out, KeyClear s) →
      ∀ s ∈ ps.foldl (fun out p => if p.text ∈ out then out else out ++ [p.text]) out, KeyClear s := by
    intro ps
    induction ps with
    | nil => exact fun _ hout => hout
    | cons p ps ih =>
      intro out hout
      have hstep : ∀ s ∈ (if p.text ∈ out then out else out ++ [p.text]), KeyClear s := by
        split
        · exact hout
        · exact List.forall_mem_append.mpr ⟨hout, List.forall_mem_singleton.mpr (keyClear_net p)⟩
      exact ih _ hstep
  exact Clear.intercalate (keyClear_plain (by simp))
    (hfold reach _ (List.forall_mem_singleton.mpr (keyClear_net hub.poolCIDR)))

/-- The rest of a node's file is clear when the stored texts in it are. -/
theorem keyClear_tail {hub : Hub} {n : Node} (hendpoint : ¬ Occurs nodePrivatePlaceholder hub.endpoint)
    (hpub : ¬ Occurs nodePrivatePlaceholder hub.keys.pub)
    (hpreshared : ¬ Occurs nodePrivatePlaceholder n.preshared)
    (hiface : ¬ Occurs nodePrivatePlaceholder n.lanIface) (reach : List Prefix) :
    KeyClear (nodeTail hub n reach) := by
  have hhooks : ∀ s ∈ (nodeHooks hub n reach).map Hook.text, KeyClear s := by
    refine List.forall_mem_map.mpr fun h hh => keyClear_hook ?_
    rcases List.mem_append.mp hh with hh | hh
    · exact cmdClear_lanHooks hiface hub reach h hh
    · exact cmdClear_exitHooks hub n h hh
  have hpsk : KeyClear (if n.preshared ≠ "" then confLine "PresharedKey" n.preshared else "") := by
    split
    · exact keyClear_confLine (keyClear_plain (by simp)) (keyClear_line hpreshared)
    · exact Clear.empty
  have hkey : KeyClear (confLine "PublicKey" hub.keys.pub) :=
    keyClear_confLine (keyClear_plain (by simp)) (keyClear_line hpub)
  have hremote : KeyClear (confLine "Endpoint" hub.endpoint) :=
    keyClear_confLine (keyClear_plain (by simp)) (keyClear_line hendpoint)
  have hallowed : KeyClear (confLine "AllowedIPs" (", ".intercalate (nodeAllowedIPs hub reach))) :=
    keyClear_confLine (keyClear_plain (by simp)) ((keyClear_allowedIPs hub reach).append (keyClear_plain (by simp)))
  have hkeepalive : KeyClear (confLine "PersistentKeepalive" "25") :=
    keyClear_confLine (keyClear_plain (by simp)) (keyClear_plain (by simp))
  exact Clear.append (keyClear_plain (by simp)) ((keyClear_params hub.params).append ((Clear.join hhooks).append
    (Clear.append (keyClear_plain (by simp)) (hkey.append (hpsk.append (hremote.append (hallowed.append
      hkeepalive)))))))

/-- **The agent's own key**: replacing the place holder gives the file printed with the key. -/
theorem fullConfig_renderNode (hub : Hub) (n : Node) (reach : List Prefix) (priv : String) (hpriv : priv ≠ "")
    (hendpoint : ¬ Occurs nodePrivatePlaceholder hub.endpoint)
    (hpub : ¬ Occurs nodePrivatePlaceholder hub.keys.pub)
    (hpreshared : ¬ Occurs nodePrivatePlaceholder n.preshared)
    (hiface : ¬ Occurs nodePrivatePlaceholder n.lanIface) :
    fullConfig (renderNode hub { n with keys := ⟨"", n.keys.pub⟩ } reach) priv =
      renderNode hub { n with keys := ⟨priv, n.keys.pub⟩ } reach := by
  -- both files are a head, the key and a tail; neither the head nor the tail depends on the key
  rw [renderNode_split, renderNode_split, if_pos rfl, if_neg hpriv]
  exact replaceAll_once (by decide) (keyClear_head n) (keyClear_tail hendpoint hpub hpreshared hiface reach) priv

/-- A LAN interface whose name begins like the place holder. -/
def demoSite (priv : String) : Node :=
  ⟨"home", .ofBytes 10 8 0 2, [⟨.ofBytes 192 168 1 0, 24⟩], ⟨priv, "pub"⟩, "__REPL", "psk", false, "", []⟩

/-- The file of a home server that keeps its key is the one the panel would print for it. -/
theorem fullConfig_renderNode_home :
    fullConfig (renderNode demoHub (demoSite "") []) "key" = renderNode demoHub (demoSite "key") [] :=
  fullConfig_renderNode demoHub (demoSite "") [] "key" (by decide) (by decide +kernel) (by decide +kernel)
    (by decide +kernel) (by decide +kernel)

end NodeAgent
end BeautyAwg
