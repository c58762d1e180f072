import BeautyAwg.Awg.Correctness.HubFile
import BeautyAwg.Awg.Peers

/-!
# `Awg.Correctness.ClientFile`: the `AllowedIPs` line of a device

What a device sends into the tunnel is what the line of its file covers: the hub's address and what the device
is granted, no more.

## Contents
- **The line.** `allowedValue`; `fields_allowedValue`: it is read back as the list it was printed from.
- **What it covers.** `renderClient_allowedIPs`.
-/

namespace BeautyAwg
namespace Awg

open Netip QuickConf

/-! ## The line -/

/-- The value of the line. -/
def allowedValue (hub : Hub) (granted : List Grant) : String := ", ".intercalate (clientAllowedIPs hub granted)

theorem comma_not_digit : ∀ d < 16, ',' ≠ Nat.digitChar d := by decide

/-- A host route is one entry of a list. -/
theorem host_listed (a : Addr) : Clean (a.text ++ "/32") ∧ ',' ∉ (a.text ++ "/32").toList := by
  have htext := not_mem_text comma_not_digit (by decide) (by decide) (by decide) a
  exact ⟨(clean_host a).1, by simpa [String.toList_append] using htext⟩

/-- Every prefix is one entry of a list. -/
theorem prefix_listed (p : Prefix) : Clean p.text ∧ ',' ∉ p.text.toList := by
  have hp := clean_prefix p
  exact ⟨hp.1, not_mem_prefix_text comma_not_digit (by decide) (by decide) (by decide) (by decide) (by decide) p⟩

theorem clean_entry {hub : Hub} {granted : List Grant} {s : String} (hs : s ∈ clientAllowedIPs hub granted) :
    Clean s ∧ ',' ∉ s.toList := by
  have hfull : Clean fullTunnel ∧ ',' ∉ fullTunnel.toList := ⟨Solid.clean (by decide), by decide⟩
  unfold clientAllowedIPs at hs
  dsimp only at hs
  split at hs
  · rw [List.mem_singleton.mp hs]
    exact hfull
  · rcases List.mem_cons.mp hs with rfl | hs
    · exact host_listed _
    · obtain ⟨g, -, hs⟩ := List.mem_flatMap.mp hs
      rcases List.mem_append.mp hs with hs | hs
      · split at hs
        · rw [List.mem_singleton.mp hs]
          exact hfull
        · exact absurd hs List.not_mem_nil
      · obtain ⟨p, -, rfl⟩ := List.mem_map.mp hs
        exact prefix_listed p

theorem fields_allowedValue (hub : Hub) (granted : List Grant) :
    fields (allowedValue hub granted) = clientAllowedIPs hub granted := by
  refine fields_intercalate ?_ fun s hs => clean_entry hs
  unfold clientAllowedIPs
  dsimp only
  split <;> simp

/-- The line and the keep-alive end the file. -/
theorem renderClient_split (hub : Hub) (c : Client) (granted : List Grant) : ∃ head,
    renderClient hub c granted =
      head ++ (confLine "AllowedIPs" (allowedValue hub granted) ++ confLine "PersistentKeepalive" "25") := by
  unfold renderClient
  dsimp only
  rw [String.append_assoc]
  exact ⟨_, rfl⟩

/-! ## What it covers -/

/-- The address is a destination of the grant: of one of its rules, or of any subnet when it has no rules. -/
def Grant.Covers (g : Grant) (a : Addr) : Prop :=
  if g.rules = [] then ∃ s ∈ g.subnets, s.contains a = true else ∃ r ∈ g.rules, r.dest.contains a = true

/-- The grant's prefixes are IPv4. -/
def Grant.Is4 (g : Grant) : Prop := (∀ s ∈ g.subnets, s.is4 = true) ∧ ∀ r ∈ g.rules, r.dest.is4 = true

theorem covers_v4 {hub : Hub} {granted : List Grant} {y : BitVec 32} :
    coveredBy (clientAllowedIPs hub granted) (.v4 y) = true ↔
      hub.address = .v4 y ∨ (∃ g ∈ granted, g.Covers (.v4 y)) ∨ ∃ g ∈ granted, g.nodeExit = true := by
  have hcovers : ∀ g : Grant, g.reaches (.v4 y) ↔ g.Covers (.v4 y) := fun _ => Grant.reaches_iff
  rw [clientAllowedIPs_covers, host_contains]
  simp only [hcovers]
  split
  -- the default route replaces the list: either the grant is a node exit, or one of its prefixes is this route
  · rename_i hall
    obtain ⟨g, hg, hexit | hdefault⟩ := hall
    · exact iff_of_true rfl (.inr (.inr ⟨g, hg, hexit⟩))
    · have hzero : (⟨.v4 0, 0⟩ : Prefix).contains (.v4 y) = true := by
        simp [Prefix.contains, BitVec.ushiftRight_eq_zero]
      exact iff_of_true rfl (.inr (.inl ⟨g, hg, (hcovers g).mp ⟨_, hdefault, hzero⟩⟩))
  · rename_i hnot
    refine or_congr_right (or_iff_left ?_).symm
    rintro ⟨g, hg, hexit⟩
    exact hnot ⟨g, hg, .inl hexit⟩

theorem covers_only_v4 {hub : Hub} {granted : List Grant} (hhub : hub.address.is4 = true)
    (hgranted : ∀ g ∈ granted, g.Is4) {a : Addr} (h : coveredBy (clientAllowedIPs hub granted) a = true) :
    a.is4 = true := by
  rw [clientAllowedIPs_covers] at h
  split at h
  · exact h
  · rcases h with h | ⟨g, hg, h⟩
    · exact is4_of_contains hhub h
    · obtain ⟨hsubnets, hrules⟩ := hgranted g hg
      have hof : ∀ p : Prefix, p.is4 = true → p.contains a = true → a.is4 = true := by
        intro p hp hc
        obtain ⟨y, rfl⟩ := v4_of_contains hp hc
        rfl
      rw [Grant.reaches_iff] at h
      split at h
      · obtain ⟨s, hs, hc⟩ := h
        exact hof s (hsubnets s hs) hc
      · obtain ⟨r, hr, hc⟩ := h
        exact hof r.dest (hrules r hr) hc

theorem fullTunnel_alone {hub : Hub} {granted : List Grant} (h : fullTunnel ∈ clientAllowedIPs hub granted) :
    clientAllowedIPs hub granted = [fullTunnel] := by
  unfold clientAllowedIPs at h ⊢
  dsimp only at h ⊢
  split
  · rfl
  · rename_i hnot
    rw [if_neg hnot] at h
    exact absurd h hnot

/-- **What a device is told to send into the tunnel** is what it is granted, and the hub's address. -/
theorem renderClient_allowedIPs (hub : Hub) (c : Client) (granted : List Grant) :
    (∃ head, renderClient hub c granted =
      head ++ (confLine "AllowedIPs" (allowedValue hub granted) ++ confLine "PersistentKeepalive" "25")) ∧
    (∀ y : BitVec 32, coveredBy (fields (allowedValue hub granted)) (.v4 y) = true ↔
      hub.address = .v4 y ∨ (∃ g ∈ granted, g.Covers (.v4 y)) ∨ ∃ g ∈ granted, g.nodeExit = true) ∧
    (hub.address.is4 = true → (∀ g ∈ granted, g.Is4) → ∀ a,
      coveredBy (fields (allowedValue hub granted)) a = true → a.is4 = true) ∧
    (fullTunnel ∈ fields (allowedValue hub granted) → fields (allowedValue hub granted) = [fullTunnel]) := by
  rw [fields_allowedValue]
  exact ⟨renderClient_split hub c granted, fun y => covers_v4, fun hhub hgranted a h => covers_only_v4 hhub hgranted h,
    fullTunnel_alone⟩

end Awg
end BeautyAwg
