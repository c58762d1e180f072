import BeautyAwg.Awg.Correctness.HubFile
import BeautyAwg.Awg.NodeConf
import BeautyAwg.Lib.NetipText
import BeautyAwg.Lib.Shell

/-!
# `Awg.Correctness.ReachLines`: the lines with the LAN interface

The home server's file has its LAN interface in the masquerade lines of the linked subnets and nowhere else. Where the
interface is a plain word, a shell reads it there as one word: `linesWith_renderNode`.

## Contents
- **Lines.** `hookTokens`; what is printed for the parameters and for any hooks is a block of lines.
- **Words.** `Word`: one word for the file's format and for the shell.
- **Masquerade lines.** `masqueradeWords`, `hookTokens_reachLine`.
- **The file.** `LinesWith`, `linesWith_renderNode`.
-/

namespace BeautyAwg
namespace Awg

open Netip QuickConf Shell

/-! ## Lines -/

/-- The key of a `PostUp` or `PostDown` line, with its value as a shell splits it. -/
def hookTokens (line : List Char) : Option (String × Option (List Token)) :=
  match parseLine line with
  | some [.entry key value] => if key = "PostUp" ∨ key = "PostDown" then some (key, tokens value.toList) else none
  | _ => none

theorem block_confLine (key value : String) : Block (confLine key value) (lines (key ++ " = " ++ value)) :=
  Block.broken _

theorem exists_block_params (p : ObfuscationParams) : ∃ ls, Block (paramsBlock p) ls :=
  ⟨_, ((((((((block_confLine _ _).append (block_confLine _ _)).append (block_confLine _ _)).append
    (block_confLine _ _)).append (block_confLine _ _)).append (block_confLine _ _)).append
    (block_confLine _ _)).append (block_confLine _ _)).append (block_confLine _ _)⟩

theorem exists_block_hooks (hs : List Hook) : ∃ ls, Block (String.join (hs.map Hook.text)) ls :=
  ⟨_, Block.join fun _ _ => block_confLine _ _⟩

/-! ## Words -/

/-- The characters with a meaning for the shell, but for blanks and comments. -/
def shellChars : List Char := ['&', '|', ';', '<', '>', '(', ')', '\'', '"', '\\', '\x60', '$']

/-- One word, for the file's format as for the shell. -/
structure Word (w : String) : Prop where
  solid : Solid w
  plain : PlainWord w.toList

instance (w : String) : Decidable (Word w) :=
  decidable_of_iff (Solid w ∧ PlainWord w.toList) ⟨fun h => ⟨h.1, h.2⟩, fun h => ⟨h.solid, h.plain⟩⟩

theorem Word.ne_empty {w : String} (h : Word w) : w ≠ "" := by
  rintro rfl
  exact h.plain.1 rfl

theorem plain_of_not_shell {c : Char} (hsolid : isSpace c = false ∧ c ≠ '\n' ∧ c ≠ '#') (hshell : c ∉ shellChars) :
    Plain c = true := by
  obtain ⟨hspace, hbreak, hhash⟩ := hsolid
  simp only [isSpace, decide_eq_false_iff_not, not_or] at hspace
  simp only [shellChars, List.mem_cons, List.not_mem_nil, or_false, not_or] at hshell
  simp [Plain, isBlank, isOperator, hspace, hbreak, hhash, hshell]

theorem word_of_not_shell {w : String} (hne : w ≠ "") (hsolid : Solid w) (hshell : ∀ c ∈ shellChars, c ∉ w.toList) :
    Word w where
  solid := hsolid
  plain := ⟨fun h => hne (String.toList_eq_nil_iff.mp h), fun c hc =>
    plain_of_not_shell (hsolid c hc) fun hmem => hshell c hmem hc⟩

theorem solid_validText {p : Prefix} (h : p.isValid = true) : Solid p.text := by
  have haddr : Solid p.addr.text := by
    cases ha : p.addr with
    | invalid => simp [Prefix.isValid, Addr.isValid, ha] at h
    | v4 a => exact solid_text4 a
    | v6 a => exact solid_text6 a
  unfold Prefix.text
  rw [if_pos h]
  exact (haddr.append (by decide)).append (solid_nat _)

/-- No address has a character that means something to the shell. -/
theorem not_mem_prefix_of_shell {c : Char} (h : c ∈ shellChars) (p : Prefix) : c ∉ p.text.toList := by
  have hchars : (shellChars.all fun c => (List.range 16).all (fun d => c ≠ d.digitChar) &&
      decide (c ≠ '.' ∧ c ≠ ':' ∧ c ≠ '/' ∧ c ∉ "invalid IP".toList ∧ c ∉ "invalid Prefix".toList)) = true := by
    decide
  have hc := List.all_eq_true.mp hchars c h
  rw [Bool.and_eq_true, List.all_eq_true, decide_eq_true_eq] at hc
  obtain ⟨hdigit, hdot, hcolon, hslash, hword, hword'⟩ := hc
  exact not_mem_prefix_text (fun d hd => of_decide_eq_true (hdigit d (List.mem_range.mpr hd))) hdot hcolon hslash hword
    hword' p

/-- The words of a prefix: an invalid one prints as two. -/
def prefixWords (p : Prefix) : List String := if p.isValid then [p.text] else ["invalid", "Prefix"]

theorem word_of_prefix {p : Prefix} {w : String} (h : w ∈ prefixWords p) : Word w := by
  unfold prefixWords at h
  split at h
  · rename_i hvalid
    obtain rfl := List.mem_singleton.mp h
    have hclean := clean_prefix p
    exact word_of_not_shell hclean.2 (solid_validText hvalid) fun c hc => not_mem_prefix_of_shell hc p
  · rcases List.mem_cons.mp h with rfl | h
    · decide
    · obtain rfl := List.mem_singleton.mp h
      decide

/-! ## Masquerade lines -/

/-- The command that masquerades what comes from `s` into the interface. -/
def masqueradeWords (op : String) (s : Prefix) (name : String) : List String :=
  ["iptables", "-t", "nat", op, "POSTROUTING", "-s"] ++ prefixWords s ++ ["-o", name, "-j", "MASQUERADE"]

/-- The words of a masquerade command as the shell splits them. -/
def masqueradeTokens (op : String) (s : Prefix) (name : String) : List Token :=
  (masqueradeWords op s name).map fun w => .word w.toList

theorem text_prefixWords (p : Prefix) : p.text = " ".intercalate (prefixWords p) := by
  unfold prefixWords
  split
  · simp
  · rename_i h
    unfold Prefix.text
    rw [if_neg h]
    rfl

theorem text_reachRule (op name : String) (s : Prefix) :
    "iptables " ++ (masqueradeRule s ⟨name, false⟩).text op = " ".intercalate (masqueradeWords op s name) := by
  have htext : (masqueradeRule s ⟨name, false⟩).text op = "-t nat " ++ op ++ " " ++ "POSTROUTING" ++ " " ++
      ("-s " ++ s.text ++ " ") ++ "" ++ ("" ++ "-o" ++ " " ++ name ++ " ") ++ "" ++ "" ++ "-j " ++ "MASQUERADE" := rfl
  rw [htext, text_prefixWords]
  refine String.toList_inj.mp ?_
  unfold masqueradeWords prefixWords
  split <;> simp

section Reach

variable {key op name : String}

theorem word_of_masquerade {w : String} {s : Prefix} (hop : Word op) (hname : Word name)
    (h : w ∈ masqueradeWords op s name) : Word w := by
  simp only [masqueradeWords, List.mem_append, List.mem_cons, List.not_mem_nil, or_false] at h
  rcases h with ((rfl | rfl | rfl | rfl | rfl | rfl) | h) | (rfl | rfl | rfl | rfl)
  · decide
  · decide
  · decide
  · exact hop
  · decide
  · decide
  · exact word_of_prefix h
  · decide
  · exact hname
  · decide
  · decide

theorem clean_masquerade (hop : Word op) (hname : Word name) (s : Prefix) :
    Clean (" ".intercalate (masqueradeWords op s name)) := by
  refine (clean_intercalate (by decide) fun w hw => ?_).1
  have hword := word_of_masquerade hop hname hw
  exact ⟨hword.solid.clean, hword.ne_empty⟩

/-- A line of the file that masquerades one subnet on one interface. -/
def reachLine (key op name : String) (s : Prefix) : List Char :=
  (key ++ " = " ++ " ".intercalate (masqueradeWords op s name)).toList

/-- **The masquerade line.** `awg-quick` and the shell read it as the command's words. -/
theorem hookTokens_reachLine (hkey : key = "PostUp" ∨ key = "PostDown") (hop : Word op) (hname : Word name)
    (s : Prefix) : hookTokens (reachLine key op name s) = some (key, some (masqueradeTokens op s name)) := by
  have hkeyOk : KeyOk key := by
    rcases hkey with rfl | rfl <;> decide
  have htokens : tokens (" ".intercalate (masqueradeWords op s name)).toList =
      some (masqueradeTokens op s name) := by
    rw [String.toList_intercalate]
    refine (tokens_words fun w hw => ?_).trans (by rw [List.map_map]; rfl)
    obtain ⟨v, hv, rfl⟩ := List.mem_map.mp hw
    exact (word_of_masquerade hop hname hv).plain
  rw [hookTokens, reachLine, parseLine_entry hkeyOk (clean_masquerade hop hname s)]
  simp only [if_pos hkey, htokens]

theorem map_hookTokens_reachLine (hkey : key = "PostUp" ∨ key = "PostDown") (hop : Word op) (hname : Word name)
    (reach : List Prefix) : (reach.map (reachLine key op name)).map hookTokens =
      reach.map fun s => some (key, some (masqueradeTokens op s name)) := by
  rw [List.map_map]
  exact List.map_congr_left fun s _ => hookTokens_reachLine hkey hop hname s

theorem block_reachLine (hkey : KeyOk key) (hop : Word op) (hname : Word name) (s : Prefix) :
    Block (confLine key (" ".intercalate (masqueradeWords op s name))) [reachLine key op name s] :=
  block_entry hkey (clean_masquerade hop hname s)

/-- The hooks of the linked subnets are a block of one line each. -/
theorem block_reach {hook : Prefix → Hook} (hkey : KeyOk key) (hop : Word op) (hname : Word name)
    (htext : ∀ s, (hook s).text = confLine key (" ".intercalate (masqueradeWords op s name))) (reach : List Prefix) :
    Block (String.join ((reach.map hook).map Hook.text)) (reach.map (reachLine key op name)) := by
  rw [List.map_map, List.map_eq_flatMap (f := reachLine key op name)]
  refine Block.join fun s _ => ?_
  show Block (hook s).text _
  rw [htext s]
  exact block_reachLine hkey hop hname s

end Reach

/-! ## The file -/

/-- The lines of a file: between `head`, `mid` and `tail`, one for each linked subnet that masquerades it into the
    interface, when the tunnel goes up and when it goes down. -/
def LinesWith (head mid tail : List (List Char)) (reach : List Prefix) (name text : String) : Prop :=
  ∃ up down, lines text = head ++ up ++ mid ++ down ++ tail ∧
    (up.map hookTokens = reach.map fun s => some ("PostUp", some (masqueradeTokens "-A" s name))) ∧
    (down.map hookTokens = reach.map fun s => some ("PostDown", some (masqueradeTokens "-D" s name)))

/-- The number of lines does not depend on the interface. -/
theorem LinesWith.length_eq {head mid tail : List (List Char)} {reach : List Prefix} {name name' text text' : String}
    (h : LinesWith head mid tail reach name text) (h' : LinesWith head mid tail reach name' text') :
    (lines text).length = (lines text').length := by
  obtain ⟨up, down, hlines, hup, hdown⟩ := h
  obtain ⟨up', down', hlines', hup', hdown'⟩ := h'
  have hlens : up.length = reach.length ∧ down.length = reach.length :=
    ⟨by simpa using congrArg List.length hup, by simpa using congrArg List.length hdown⟩
  have hlens' : up'.length = reach.length ∧ down'.length = reach.length :=
    ⟨by simpa using congrArg List.length hup', by simpa using congrArg List.length hdown'⟩
  simp [hlines, hlines', hlens, hlens']

/-- The hook that adds the subnet's masquerade rule. -/
def upHook (name : String) (s : Prefix) : Hook := postUp (.add false (masqueradeRule s ⟨name, false⟩))

/-- The hook that deletes it. -/
def downHook (name : String) (s : Prefix) : Hook := postDown (.delete (masqueradeRule s ⟨name, false⟩))

theorem text_upHook (name : String) (s : Prefix) :
    (upHook name s).text = confLine "PostUp" (" ".intercalate (masqueradeWords "-A" s name)) := by
  rw [← text_reachRule]
  exact congrArg (confLine "PostUp") String.append_empty

theorem text_downHook (name : String) (s : Prefix) :
    (downHook name s).text = confLine "PostDown" (" ".intercalate (masqueradeWords "-D" s name)) := by
  rw [← text_reachRule]
  exact congrArg (confLine "PostDown") String.append_empty

theorem nodeHooks_split (hub : Hub) (n : Node) (reach : List Prefix) : ∃ first second third : List Hook, ∀ name,
    nodeHooks hub { n with lanIface := name } reach =
      first ++ reach.map (upHook name) ++ second ++ reach.map (downHook name) ++ third :=
  ⟨[_, _], [_, _, _, _, _, _, _, _, _], [_, _] ++ exitHooks hub n, fun _ => List.append_assoc _ _ _⟩

/-- The file before its hooks. -/
def nodeStart (hub : Hub) (n : Node) : String :=
  "[Interface]\n" ++ confLine "Address" (n.address.text ++ "/32") ++
    confLine "PrivateKey" (if n.keys.priv = "" then nodePrivatePlaceholder else n.keys.priv) ++ paramsBlock hub.params

/-- The file after its hooks. -/
def nodePeer (hub : Hub) (n : Node) (reach : List Prefix) : String :=
  "\n# hub\n[Peer]\n" ++ confLine "PublicKey" hub.keys.pub ++
    (if n.preshared ≠ "" then confLine "PresharedKey" n.preshared else "") ++
    confLine "Endpoint" hub.endpoint ++ confLine "AllowedIPs" (", ".intercalate (nodeAllowedIPs hub reach)) ++
    confLine "PersistentKeepalive" "25"

theorem renderNode_hooks (hub : Hub) (n : Node) (reach : List Prefix) : renderNode hub n reach =
    nodeStart hub n ++ (String.join ((nodeHooks hub n reach).map Hook.text) ++ nodePeer hub n reach) := by
  unfold renderNode nodeStart nodePeer
  simp only [String.append_assoc]

theorem exists_block_start (hub : Hub) (n : Node) : ∃ ls, Block (nodeStart hub n) ls := by
  obtain ⟨params, hparams⟩ := exists_block_params hub.params
  exact ⟨_, (((Block.broken "[Interface]").append (block_confLine _ _)).append (block_confLine _ _)).append hparams⟩

/-- **One word.** The other lines do not depend on the interface. -/
theorem linesWith_renderNode (hub : Hub) (n : Node) (reach : List Prefix) : ∃ head mid tail, ∀ name, Word name →
    LinesWith head mid tail reach name (renderNode hub { n with lanIface := name } reach) := by
  obtain ⟨first, second, third, hhooks⟩ := nodeHooks_split hub n reach
  obtain ⟨start, hstart⟩ := exists_block_start hub n
  obtain ⟨ls₁, hfirst⟩ := exists_block_hooks first
  obtain ⟨ls₂, hsecond⟩ := exists_block_hooks second
  obtain ⟨ls₃, hthird⟩ := exists_block_hooks third
  refine ⟨start ++ ls₁, ls₂, ls₃ ++ lines (nodePeer hub n reach), fun name hname => ?_⟩
  have hup : Block (String.join ((reach.map (upHook name)).map Hook.text))
      (reach.map (reachLine "PostUp" "-A" name)) :=
    block_reach (by decide) (by decide) hname (text_upHook name) reach
  have hdown : Block (String.join ((reach.map (downHook name)).map Hook.text))
      (reach.map (reachLine "PostDown" "-D" name)) :=
    block_reach (by decide) (by decide) hname (text_downHook name) reach
  have hlines := (hstart.append ((((hfirst.append hup).append hsecond).append hdown).append hthird)).lines_append
    (nodePeer hub n reach)
  refine ⟨_, _, ?_, map_hookTokens_reachLine (.inl rfl) (by decide) hname reach,
    map_hookTokens_reachLine (.inr rfl) (by decide) hname reach⟩
  rw [renderNode_hooks, hhooks name]
  simp only [List.map_append, String.join_append, String.append_assoc, List.append_assoc] at hlines ⊢
  exact hlines

end Awg
end BeautyAwg
