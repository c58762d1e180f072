import BeautyAwg.Api.Handlers
import BeautyAwg.Awg.Correctness.ReachLines

/-!
# `Api.Correctness.IfaceNames`: announced interface names stay words

The name of a LAN interface comes from outside and stands in commands that a shell runs. The requests that bring it
are refused unless it is made of a few plain characters. So two names give files that differ, command by command, in
one word only: `iface_confined`.

## Contents
- **Requests.** `IfaceReq`, `handle`, `call`.
- **Names.** `word_of_validIface`; `handle_ok`: what an accepted request stores.
- **Two requests.** `Carries`, `iface_confined`.
-/

namespace BeautyAwg
namespace Api

open Netip Awg Store
open QuickConf (lines)

/-! ## Requests -/

/-- A request that brings an interface name. -/
inductive IfaceReq where
  | create (req : CreateNodeReq)
  | enroll (secret header : String) (req : EnrollReq)

namespace IfaceReq

/-- The subnets that the request carries. -/
def subnets : IfaceReq → List String
  | create req => req.subnets
  | enroll _ _ req => req.subnets

/-- The same request with another name. -/
def withIface (name : String) : IfaceReq → IfaceReq
  | create req => create { req with lanIface := name }
  | enroll secret header req => enroll secret header { req with lanIface := name }

/-- The checks and the store calls of the request. -/
def handle (fresh : Fresh) : IfaceReq → Except HttpError (List Op)
  | create req => handleCreateNode fresh req
  | enroll secret header req => do
    let op ← handleEnroll fresh secret header req
    .ok [op]

/-- The store call of the request with this name. -/
def call (subnets : List Prefix) (fresh : Fresh) (name : String) : IfaceReq → Op
  | create req => .createNode fresh.id req.name name subnets fresh.keys fresh.psk
  | enroll _ _ req =>
    .enrollNode fresh.id fresh.token (if req.name = "" then req.hostname else req.name) req.hostname name
      req.publicKey subnets fresh.row

end IfaceReq

/-! ## Names -/

/-- A name that passes the check is valid. -/
theorem validIface_of_check {name : String} {u : Unit} (h : checkIface name = .ok u) : validIface name = true := by
  by_contra hno
  rw [checkIface, if_neg hno] at h
  cases h

/-- Blanks, line breaks, comments and what else the shell knows. -/
def separators : List Char := [' ', '\t', '\r', '\x0b', '\x0c', '\n', '#'] ++ shellChars

/-- A valid name holds no separator. -/
theorem not_separator_of_validIface {name : String} (h : validIface name = true) {c : Char} (hc : c ∈ name.toList) :
    c ∉ separators := by
  have hsep : (separators.all fun c => ¬ (c.isAlphanum ∨ c = '.' ∨ c = '_' ∨ c = '-')) = true := by decide
  simp only [validIface, decide_eq_true_eq, List.all_eq_true] at h
  intro hmem
  exact of_decide_eq_true (List.all_eq_true.mp hsep c hmem) (h.2.2 c hc)

/-- A valid name is one word, for the shell as for the file. -/
theorem word_of_validIface {name : String} (h : validIface name = true) : Word name := by
  have hne : name ≠ "" := by
    rintro rfl
    exact absurd h (by decide)
  refine word_of_not_shell hne (fun c hc => ?_) fun c hc hmem => ?_
  · have hc := not_separator_of_validIface h hc
    simp only [separators, List.mem_append, List.mem_cons, List.not_mem_nil, or_false, not_or] at hc
    simp [QuickConf.isSpace, hc]
  · exact not_separator_of_validIface h hmem (List.mem_append_right _ hc)

/-- An accepted request makes one call, with its name in it. -/
theorem handle_ok {fresh : Fresh} {r : IfaceReq} {name : String} {ops : List Op}
    (h : (r.withIface name).handle fresh = .ok ops) :
    Word name ∧ ∃ subnets, parseSubnets r.subnets = .ok subnets ∧ ops = [r.call subnets fresh name] := by
  cases r with
  | create req =>
    simp only [IfaceReq.withIface, IfaceReq.handle, handleCreateNode] at h
    split at h
    · cases h
    · obtain ⟨_, hcheck, h⟩ := ok_of_bind_ok h
      obtain ⟨subnets, hsubnets, h⟩ := ok_of_bind_ok h
      exact ⟨word_of_validIface (validIface_of_check hcheck), subnets, hsubnets, (Except.ok.inj h).symm⟩
  | enroll secret header req =>
    obtain ⟨op, hop, h⟩ := ok_of_bind_ok h
    obtain rfl := Except.ok.inj h
    simp only [handleEnroll] at hop
    split at hop
    · cases hop
    · split at hop
      · cases hop
      · obtain ⟨_, hcheck, hop⟩ := ok_of_bind_ok hop
        obtain ⟨subnets, hsubnets, hop⟩ := ok_of_bind_ok hop
        obtain rfl := Except.ok.inj hop
        exact ⟨word_of_validIface (validIface_of_check hcheck), subnets, hsubnets, rfl⟩

/-! ## Two requests -/

/-- A row of a node that the call may write. -/
inductive WritesRow (op : Op) : NodeRow → Prop
  | insert {row} (h : op.Writes (.insertNode row)) : WritesRow op row
  | update {id f} (h : op.Writes (.updateNode id f)) (row : NodeRow) : WritesRow op (f row)

/-- The calls write the same rows, each with the name that it was given. -/
def Carries (call : String → Op) : Prop :=
  ∀ name row, WritesRow (call name) row →
    row.lanIface = name ∧ ∀ other, WritesRow (call other) { row with lanIface := other }

/-- Every request for an interface name carries it to the store as it is. -/
theorem carries_call (subnets : List Prefix) (fresh : Fresh) (r : IfaceReq) :
    Carries fun name => r.call subnets fresh name := by
  intro name row h
  cases r with
  | create req =>
    cases h with
    | insert hw =>
      cases hw with
      | createNode a => exact ⟨rfl, fun _ => .insert (.createNode a)⟩
    | update hw => cases hw
  | enroll secret header req =>
    cases h with
    | insert hw =>
      cases hw with
      | enrollNode => exact ⟨rfl, fun _ => .insert .enrollNode⟩
    | @update id f hw row =>
      cases hw with
      | enrollNode_known _ token => exact ⟨rfl, fun _ => .update (.enrollNode_known id token) row⟩

/-- **Names stay words.** Two accepted requests that differ in the name write rows that differ in the name. Of two
    files with these names, the lines are the same but for those that masquerade a linked subnet, one for each in both,
    and these are the same words for the shell but for the name after `-o`. -/
theorem iface_confined {fresh fresh' : Fresh} {r : IfaceReq} {name name' : String} {ops ops' : List Op}
    (h : (r.withIface name).handle fresh = .ok ops) (h' : (r.withIface name').handle fresh' = .ok ops') :
    (∃ subnets, ops = [r.call subnets fresh name] ∧ ops' = [r.call subnets fresh' name'] ∧
      ∀ f, Carries fun iface => r.call subnets f iface) ∧
    ∀ (hub : Hub) (n : Node) (reach : List Prefix),
      (lines (renderNode hub { n with lanIface := name } reach)).length =
        (lines (renderNode hub { n with lanIface := name' } reach)).length ∧
      ∃ head mid tail, LinesWith head mid tail reach name (renderNode hub { n with lanIface := name } reach) ∧
        LinesWith head mid tail reach name' (renderNode hub { n with lanIface := name' } reach) := by
  obtain ⟨hname, subnets, hparse, hops⟩ := handle_ok h
  obtain ⟨hname', subnets', hparse', hops'⟩ := handle_ok h'
  obtain rfl : subnets = subnets' := Except.ok.inj (hparse.symm.trans hparse')
  refine ⟨⟨subnets, hops, hops', fun f => carries_call subnets f r⟩, fun hub n reach => ?_⟩
  obtain ⟨head, mid, tail, hlines⟩ := linesWith_renderNode hub n reach
  have hwith := hlines name hname
  have hwith' := hlines name' hname'
  exact ⟨hwith.length_eq hwith', head, mid, tail, hwith, hwith'⟩

/-- A location without an interface name. -/
def demoIfaceReq : IfaceReq := .create ⟨"home", "", ["192.168.1.0/24"]⟩

/-- Two names that the handler takes: the files differ in the word behind `-o` only. -/
theorem iface_confined_demo :
    let file := fun name => renderNode demoHub ⟨"home", .ofBytes 10 8 0 2, [], ⟨"", "pub"⟩, name, "", false, "", []⟩
      [⟨.ofBytes 192 168 2 0, 24⟩]
    ∃ head mid tail, LinesWith head mid tail [⟨.ofBytes 192 168 2 0, 24⟩] "eth0" (file "eth0") ∧
      LinesWith head mid tail [⟨.ofBytes 192 168 2 0, 24⟩] "br-lan" (file "br-lan") := by
  have heth : (demoIfaceReq.withIface "eth0").handle demoFresh =
      .ok [demoIfaceReq.call [⟨.ofBytes 192 168 1 0, 24⟩] demoFresh "eth0"] := by decide +kernel
  have hbr : (demoIfaceReq.withIface "br-lan").handle demoFresh =
      .ok [demoIfaceReq.call [⟨.ofBytes 192 168 1 0, 24⟩] demoFresh "br-lan"] := by decide +kernel
  exact ((iface_confined heth hbr).2 demoHub
    ⟨"home", .ofBytes 10 8 0 2, [], ⟨"", "pub"⟩, "", "", false, "", []⟩ [⟨.ofBytes 192 168 2 0, 24⟩]).2

end Api
end BeautyAwg
