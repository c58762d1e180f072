import BeautyAwg.Awg.VPNLink

/-!
# `Awg.Correctness.VPNLink`: the link carries the file

What an app reads out of a link, undoing each layer, is the object that was put in (`readVPNLink_render`). The object
agrees with the file of the device: it contains the file, the server that the file names and the numbers of its
obfuscation lines, which the source computes a second time (`Carries`, `vpnLink_carries`).

## Contents
- **Second computations.** `linkDNS_eq`, `itoa_eq`, `splitEndpoint_joins`.
- **Reading.** `readVPNLink`, `readVPNLink_render`.
- **Agreement.** `Carries`, `vpnLink_carries`.
-/

namespace BeautyAwg
namespace Awg

open Netip Strconv Bytes

variable (zlib : Zlib) (hub : Hub) (c : Client) (granted : List Grant)

/-! ## Second computations -/

theorem linkDNS_eq : linkDNS hub c granted = clientDNS hub c granted := by
  unfold linkDNS clientDNS
  rw [List.find?_map]
  cases hfind : granted.find? fun g => g.nodeDNS ≠ "" with
  | none =>
    have hnone : granted.find? ((fun dns => decide (dns ≠ "")) ∘ Grant.nodeDNS) = none := hfind
    rw [hnone]
    rfl
  | some g =>
    have hsome : granted.find? ((fun dns => decide (dns ≠ "")) ∘ Grant.nodeDNS) = some g := hfind
    rw [hsome]
    rfl

theorem itoa_eq (n : Int) : itoa n = toString n := by
  cases n with
  | ofNat n => exact (Nat.repr_eq_ofList_toDigits).symm
  | negSucc n =>
    show String.ofList ('-' :: Nat.toDigits 10 (n + 1)) = "-" ++ Nat.repr (n + 1)
    rw [Nat.repr_eq_ofList_toDigits]
    apply String.toList_injective
    simp

/-- Host and port make up the endpoint. -/
theorem splitEndpoint_joins {endpoint : String} (h : ':' ∈ endpoint.toList) :
    (splitEndpoint endpoint).1 ++ ":" ++ (splitEndpoint endpoint).2 = endpoint := by
  unfold splitEndpoint
  split
  · rename_i host port hsplit
    obtain ⟨-, hjoin⟩ := splitLast_eq_some hsplit
    apply String.toList_injective
    rw [String.toList_append, String.toList_append, String.toList_ofList, String.toList_ofList, hjoin]
    simp
  · rename_i hnone
    exact absurd h (splitLast_eq_none hnone)

/-! ## Reading -/

/-- The link without its scheme, if it has it. -/
def stripScheme (link : Bytes) : Option Bytes :=
  if linkScheme.isPrefixOf link then some (link.drop linkScheme.length) else none

/-- The length that is stated, and what is inflated. -/
def qUncompress : Bytes → Option (Nat × Bytes)
  | n₃ :: n₂ :: n₁ :: n₀ :: stream => (zlib.inflate stream).map fun data => (ofBe32 n₃ n₂ n₁ n₀, data)
  | _ => none

/-- What an app reads out of a link: the length that it states, the bytes behind it and the object in them. -/
def readVPNLink (link : Bytes) : Option (Nat × Bytes × Json) := do
  let text ← stripScheme link
  let raw ← Base64.decode Base64.url text
  let (size, data) ← qUncompress zlib raw
  let root ← Json.unmarshal (← ofUtf8 data)
  pure (size, data, root)

theorem stripScheme_append (text : Bytes) : stripScheme (linkScheme ++ text) = some text := by
  unfold stripScheme
  rw [if_pos (List.isPrefixOf_iff_prefix.mpr (List.prefix_append linkScheme text)), List.drop_left]

theorem qUncompress_qCompress {data : Bytes} (h : data.length < 2 ^ 32) :
    qUncompress zlib (qCompress zlib data) = some (data.length, data) := by
  obtain ⟨n₃, n₂, n₁, n₀, hbytes, hsize⟩ := ofBe32_be32 h
  rw [qCompress, hbytes]
  show (zlib.inflate (zlib.deflate data)).map _ = _
  rw [zlib.inflate_deflate, Option.map_some, hsize]

/-- The objects are maps as `json.Marshal` writes them. -/
theorem link_sorted : (linkRoot hub c granted).Sorted ∧ (lastConfig hub c granted).Sorted := by
  constructor
  · simp only [linkRoot, Json.Sorted, Json.SortedElems, Json.SortedFields, List.map_cons, List.map_nil, and_true]
    decide +kernel
  · simp only [lastConfig, Json.Sorted, Json.SortedFields, List.map_cons, List.map_nil, and_true]
    decide +kernel

theorem linkRoot_plain : (linkRoot hub c granted).Plain := by
  simp [linkRoot, Json.Plain, Json.PlainElems, Json.PlainFields]

theorem lastConfig_plain : (lastConfig hub c granted).Plain := by
  simp [lastConfig, Json.Plain, Json.PlainFields]

/-- **Every layer is undone.** -/
theorem readVPNLink_render (hlen : (rootJSON hub c granted).length < 2 ^ 32) :
    readVPNLink zlib (renderVPNLink hub c granted zlib) =
      some ((rootJSON hub c granted).length, rootJSON hub c granted, linkRoot hub c granted) := by
  have htext : ofUtf8 (rootJSON hub c granted) = some (linkRoot hub c granted).marshal := ofUtf8_utf8 _
  have hroot := Json.unmarshal_marshal (linkRoot_plain hub c granted)
  simp only [readVPNLink, renderVPNLink, stripScheme_append, Base64.decode_encode, qUncompress_qCompress zlib hlen,
    htext, hroot, Option.bind_eq_bind, Option.bind_some, Option.pure_def]

/-! ## Agreement -/

/-- The value behind keys, one inside the other. -/
def jsonPath : Json → List String → Option Json
  | v, [] => some v
  | v, k :: ks => (v.entries.lookup k).bind fun x => jsonPath x ks

/-- The keys of the obfuscation lines, in their order in a file. -/
def paramKeys : List String := ["Jc", "Jmin", "Jmax", "S1", "S2", "H1", "H2", "H3", "H4"]

/-- The file names the server `dns`, or none, and has these numbers in its obfuscation lines. -/
def ConfNames (conf : String) (dns : Option String) (nums : List String) : Prop :=
  ∃ address priv rest, conf = "[Interface]\n" ++ confLine "Address" address ++ confLine "PrivateKey" priv ++
    dns.elim "" (confLine "DNS") ++ String.join (List.zipWith confLine paramKeys nums) ++ "\n# hub\n[Peer]\n" ++ rest

/-- The object of a link and the one inside it agree with the device's file. -/
structure Carries (hub : Hub) (conf : String) (root inner : Json) : Prop where
  config : jsonPath inner ["config"] = some (.str conf)
  names : ∃ dns nums, ConfNames conf dns nums ∧ jsonPath root ["dns1"] = some (.str (dns.getD "1.1.1.1")) ∧
    jsonPath root ["dns2"] = jsonPath root ["dns1"] ∧
      paramKeys.map (fun k => jsonPath inner [k]) = nums.map fun n => some (.str n)
  endpoint : ∃ host port, jsonPath root ["hostName"] = some (.str host) ∧
    jsonPath inner ["hostName"] = some (.str host) ∧
      jsonPath root ["containers", "0", "awg", "port"] = some (.str port) ∧
        (':' ∈ hub.endpoint.toList → host ++ ":" ++ port = hub.endpoint)

/-- The server that the file names. -/
def printedDNS : Option String := if clientDNS hub c granted = "" then none else some (clientDNS hub c granted)

/-- The numbers of the obfuscation lines. -/
def paramNums (p : ObfuscationParams) : List String :=
  [itoa p.jc, itoa p.jmin, itoa p.jmax, itoa p.s1, itoa p.s2, u32 p.h1, u32 p.h2, u32 p.h3, u32 p.h4]

theorem renderClient_names :
    ConfNames (renderClient hub c granted) (printedDNS hub c granted) (paramNums hub.params) := by
  have hparams : paramsBlock hub.params = String.join (List.zipWith confLine paramKeys (paramNums hub.params)) := by
    simp only [paramsBlock, paramKeys, paramNums, u32, itoa_eq, List.zipWith, String.join, List.foldl]
    rfl
  have hdns : (if clientDNS hub c granted ≠ "" then confLine "DNS" (clientDNS hub c granted) else "") =
      (printedDNS hub c granted).elim "" (confLine "DNS") := by
    unfold printedDNS
    by_cases h : clientDNS hub c granted = "" <;> simp [h]
  refine ⟨c.address.text ++ "/32", c.keys.priv, confLine "PublicKey" hub.keys.pub ++
    (if c.preshared ≠ "" then confLine "PresharedKey" c.preshared else "") ++ confLine "Endpoint" hub.endpoint ++
      confLine "AllowedIPs" (", ".intercalate (clientAllowedIPs hub granted)) ++
      confLine "PersistentKeepalive" "25", ?_⟩
  unfold renderClient
  dsimp only
  rw [hparams, hdns]
  simp only [String.append_assoc]

theorem first_index : Nat.repr 0 = "0" := rfl

theorem carries_link :
    Carries hub (renderClient hub c granted) (linkRoot hub c granted) (lastConfig hub c granted) := by
  have hdns : (if linkDNS hub c granted = "" then "1.1.1.1" else linkDNS hub c granted) =
      (printedDNS hub c granted).getD "1.1.1.1" := by
    rw [linkDNS_eq, printedDNS]
    split <;> rfl
  constructor
  · simp [lastConfig, jsonPath, Json.entries, List.lookup_cons]
  · refine ⟨printedDNS hub c granted, paramNums hub.params, renderClient_names hub c granted, ?_, ?_, ?_⟩
    · simp [linkRoot, jsonPath, Json.entries, List.lookup_cons, hdns]
    · simp [linkRoot, jsonPath, Json.entries, List.lookup_cons]
    · simp [lastConfig, paramKeys, paramNums, jsonPath, Json.entries, List.lookup_cons]
  · refine ⟨(splitEndpoint hub.endpoint).1, (splitEndpoint hub.endpoint).2, ?_, ?_, ?_, splitEndpoint_joins⟩
    · simp [linkRoot, jsonPath, Json.entries, List.lookup_cons]
    · simp [lastConfig, jsonPath, Json.entries, List.lookup_cons]
    · simp [linkRoot, jsonPath, Json.entries, List.lookup_cons, first_index]

/-- **The link carries the file.** Read back it states its length, and the objects in it agree with the file. -/
theorem vpnLink_carries (hlen : (rootJSON hub c granted).length < 2 ^ 32) :
    ∃ data root text inner,
      readVPNLink zlib (renderVPNLink hub c granted zlib) = some (data.length, data, root) ∧
        jsonPath root ["containers", "0", "awg", "last_config"] = some (.str text) ∧
          Json.unmarshal text.toList = some inner ∧ Carries hub (renderClient hub c granted) root inner := by
  have htext : jsonPath (linkRoot hub c granted) ["containers", "0", "awg", "last_config"] =
      some (.str (String.ofList (lastConfig hub c granted).marshal)) := by
    simp [linkRoot, jsonPath, Json.entries, List.lookup_cons, first_index]
  refine ⟨_, _, _, lastConfig hub c granted, readVPNLink_render zlib hub c granted hlen, htext, ?_,
    carries_link hub c granted⟩
  rw [String.toList_ofList, Json.unmarshal_marshal (lastConfig_plain hub c granted)]

/-- A device without a DNS server of its own. -/
def linkedPhone : Client := ⟨"phone", .ofBytes 10 8 0 3, ⟨"priv3", "pub3"⟩, "", ""⟩

/-- A device without grants, whose file names no server. -/
theorem vpnLink_carries_phone : ∃ data root text inner,
    readVPNLink Zlib.stored (renderVPNLink demoHub linkedPhone [] Zlib.stored) = some (data.length, data, root) ∧
      jsonPath root ["containers", "0", "awg", "last_config"] = some (.str text) ∧
        Json.unmarshal text.toList = some inner ∧ Carries demoHub (renderClient demoHub linkedPhone []) root inner := by
  have hlen : (rootJSON demoHub linkedPhone []).length < 2 ^ 32 := by
    unfold rootJSON linkRoot lastConfig
    simp only [Json.marshal, Json.marshalFields, Json.marshalElems, Json.quote, String.toList_ofList]
    -- the file's lines apart, so that no long text is decoded
    unfold renderClient
    dsimp only
    simp only [confLine, paramsBlock, String.toList_append, apply_ite String.toList]
    decide +kernel
  exact vpnLink_carries Zlib.stored demoHub linkedPhone [] hlen

end Awg
end BeautyAwg
