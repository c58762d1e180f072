import BeautyAwg.Awg.NodeConf
import BeautyAwg.Awg.Render
import BeautyAwg.Awg.VPNLink
import BeautyAwg.Store.HubRow

/-!
# `Store.Correctness.Profile`: whether the obfuscation profile is usable

The panel draws a profile once, on its first start, and every file it prints carries it. The profile always
passes `Validate`. It is usable unless the two padding sizes were drawn 56 apart, which makes initiation and
response packets as long as each other: `profile_usable_iff`.
-/

namespace BeautyAwg
namespace Store

open Awg

/-! ## The condition -/

/-- The two draws after the header loop and the junk count: the second padding is 56 more than the first. -/
def PaddingClash (r : Rand) : Prop :=
  ∃ n a b, r.HeaderDraws n ∧ r.int (n + 1) 136 = .ok a ∧ r.int (n + 2) 136 = .ok b ∧ b = a + 56

theorem paddingClash_iff {r : Rand} {p : ObfuscationParams} {n : Nat} (h : MadeOf r p n) :
    PaddingClash r ↔ 148 + p.s1 = 92 + p.s2 := by
  obtain ⟨a, ha, hs1⟩ := h.s1
  obtain ⟨b, hb, hs2⟩ := h.s2
  constructor
  · rintro ⟨m, a', b', hm, ha', hb', rfl⟩
    obtain rfl := h.least.unique hm
    rw [ha] at ha'
    rw [hb] at hb'
    have ha := Except.ok.inj ha'
    have hb := Except.ok.inj hb'
    omega
  · exact fun he => ⟨n, a, b, h.least, ha, hb, by omega⟩

/-- All that is not about the padding holds of every profile. -/
theorem validate_of_madeOf {r : Rand} {p : ObfuscationParams} {n : Nat} (h : MadeOf r p n) :
    p.validate = .ok () ∧ (p.Usable ↔ 148 + p.s1 ≠ 92 + p.s2) := by
  obtain ⟨a, ha, hjc⟩ := h.jc
  have hlt : a < 8 := r.int_lt ha
  obtain ⟨hjmin, hjmax⟩ := h.sizes
  have htypes : ∀ v ∈ p.headers, ¬ (1 ≤ v.toNat ∧ v.toNat ≤ 4) := fun v hv => by
    obtain ⟨i, hi⟩ := h.drawn v hv
    have := header_range hi
    omega
  refine ⟨(p.validate_ok).mpr ⟨by omega, by omega, h.distinct⟩, fun hu => hu.padding, fun hpad => ?_⟩
  exact ⟨h.distinct, htypes, by omega, by omega, hpad⟩

/-! ## Every file carries it -/

/-- The profile's entries in the object of a share link. -/
def linkParams (p : ObfuscationParams) : List (String × Json) :=
  [("H1", .str (u32 p.h1)), ("H2", .str (u32 p.h2)), ("H3", .str (u32 p.h3)), ("H4", .str (u32 p.h4)),
    ("Jc", .str (itoa p.jc)), ("Jmax", .str (itoa p.jmax)), ("Jmin", .str (itoa p.jmin)),
    ("S1", .str (itoa p.s1)), ("S2", .str (itoa p.s2))]

/-- The text holds the block. -/
def Holds (text block : String) : Prop := ∃ a b, text = a ++ block ++ b

theorem holds_last {a block : String} : Holds (a ++ block) block := ⟨a, "", String.append_empty.symm⟩

theorem Holds.append {text block : String} (h : Holds text block) (t : String) : Holds (text ++ t) block := by
  obtain ⟨a, b, rfl⟩ := h
  exact ⟨a, b ++ t, by rw [String.append_assoc]⟩

/-- What is printed for the hub, a node or a device holds the profile. -/
structure SharedBy (p : ObfuscationParams) (hub : Hub) : Prop where
  hubFile : ∀ nodes clients, Holds (renderHub hub nodes clients) (paramsBlock p)
  nodeFile : ∀ n reach, Holds (renderNode hub n reach) (paramsBlock p)
  clientFile : ∀ c granted, Holds (renderClient hub c granted) (paramsBlock p)
  link : ∀ c granted, ∃ rest, lastConfig hub c granted = .obj (linkParams p ++ rest)

theorem sharedBy_params (hub : Hub) : SharedBy hub.params hub where
  hubFile nodes clients := (holds_last.append _).append _
  nodeFile n reach := by
    unfold renderNode
    exact (((((((holds_last.append _).append _).append _).append _).append _).append _).append _)
  clientFile c granted := by
    unfold renderClient
    exact ((((((holds_last.append _).append _).append _).append _).append _).append _)
  link c granted := ⟨_, rfl⟩

/-! ## When it is usable -/

/-- **The profile.** What a first start draws passes the source's own check and AmneziaWG's exactly if the paddings do
    not clash; and whatever happens to the database later, both ends keep it. -/
theorem profile_usable_iff {r : Rand} {fuel : Nat} {p : ObfuscationParams}
    (h : newRandomParams r fuel = some (.ok p)) :
    ((p.validate = .ok () ∧ p.Usable) ↔ ¬ PaddingClash r) ∧
      ∀ st db, st.rand = r → ensureHub st fuel none = some (.ok db) →
        ∀ d, Life (some (db.configure st)) d → ∃ c, d = some c ∧ c.hub.params = p ∧ SharedBy p c.hub := by
  obtain ⟨n, hmade⟩ := exists_madeOf h
  obtain ⟨hvalid, husable⟩ := validate_of_madeOf hmade
  refine ⟨?_, fun st db hr hdb d hd => ?_⟩
  · rw [paddingClash_iff hmade, and_iff_right hvalid]
    exact husable
  · have hp := params_of_ensureHub hdb
    rw [hr, h] at hp
    obtain ⟨c, rfl, hc⟩ := params_of_life hd
    have hparams : c.hub.params = p := hc.trans (Except.ok.inj (Option.some.inj hp)).symm
    exact ⟨c, rfl, hparams, hparams ▸ sharedBy_params c.hub⟩

/-- A profile with the given paddings, from the four lowest headers. -/
def lowProfile (s1 s2 : Int) : ObfuscationParams :=
  ⟨3, 50, 1000, s1, s2, 0x10000000, 0x10000001, 0x10000002, 0x10000003⟩

/-- A start of the panel with this source of randomness. -/
def demoStart (r : Rand) : Start :=
  ⟨"203.0.113.1:51820", 51820, .ofBytes 10 8 0 1, ⟨.ofBytes 10 8 0 0, 24⟩, "", "", "", false, 0,
    ⟨"hubpriv", "hubpub"⟩, r⟩

/-- Both paddings 15: nothing clashes, and the hub keeps the profile. -/
theorem profile_usable_iff_equal : ¬ PaddingClash (Rand.script [0, 1, 2, 3]) ∧
    ∃ c, some ((Db.boot ((demoStart (Rand.script [0, 1, 2, 3])).hub (lowProfile 15 15)) "").configure
      (demoStart (Rand.script [0, 1, 2, 3]))) = some c ∧
      c.hub.params = lowProfile 15 15 ∧ SharedBy (lowProfile 15 15) c.hub := by
  have h : newRandomParams (Rand.script [0, 1, 2, 3]) 1 = some (.ok (lowProfile 15 15)) := by decide
  obtain ⟨n, hmade⟩ := exists_madeOf h
  obtain ⟨hvalid, husable⟩ := validate_of_madeOf hmade
  obtain ⟨hiff, hlife⟩ := profile_usable_iff h
  exact ⟨hiff.mp ⟨hvalid, husable.mpr (by decide)⟩, hlife (demoStart _) _ rfl rfl _ .refl⟩

/-- Paddings 15 and 71: both packets have 163 bytes. -/
theorem profile_clash : newRandomParams (Rand.script [0, 1, 2, 3, 0, 0, 56]) 1 = some (.ok (lowProfile 15 71)) ∧
    (lowProfile 15 71).validate = .ok () ∧ ¬ (lowProfile 15 71).Usable :=
  ⟨by decide, (lowProfile 15 71).validate_ok.mpr (by decide), fun h => h.padding (by decide)⟩

end Store
end BeautyAwg
