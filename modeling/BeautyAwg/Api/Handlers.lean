import BeautyAwg.Store.Ops

/-!
# `Api.Handlers`: the mutating requests

What each mutating handler of `internal/api` checks and which store calls it makes, in order. A handler
that gets through them ends with a reconcile; the enrolment endpoint does not. What the handlers draw at
random (ids, keys, tokens) comes in as a `Fresh`.

## Contents
- **Checks.** `validIface`, `parseSubnets`.
- **Requests.** `AdminReq.calls` for the panel's operators, `handleEnroll` for nodes.
- **Accepted requests.** What a request that gets through leads to.
-/

namespace BeautyAwg
namespace Api

open Netip Awg Store

/-- What a handler answers instead of making its store calls. -/
structure HttpError where
  code : Nat
  body : String
  deriving DecidableEq, Repr

/-- A request that the handler refuses by itself. -/
def badRequest (body : String) : HttpError := ⟨400, body⟩

/-! ## Generated values -/

/-- The characters of standard base64. -/
def isBase64 (s : String) : Bool :=
  s.toList.all fun c => c.isAlphanum ∨ c = '+' ∨ c = '/' ∨ c = '='

/-- What a handler draws at random, and which row a query without an order gives it first. Keys are base64
    text. -/
structure Fresh where
  id : Uuid
  token : String
  keys : Keypair
  psk : String
  row : Nat
  keys_base64 : isBase64 keys.priv = true ∧ isBase64 keys.pub = true
  psk_base64 : isBase64 psk = true

/-- Generated values for examples. -/
def demoFresh : Fresh := ⟨1, "token", ⟨"priv", "pub"⟩, "psk", 0, by decide, by decide⟩

/-! ## Checks -/

/-- `^[A-Za-z0-9._-]{1,15}$`. -/
def validIface (name : String) : Bool :=
  1 ≤ name.toList.length ∧ name.toList.length ≤ 15 ∧
    name.toList.all fun c => c.isAlphanum ∨ c = '.' ∨ c = '_' ∨ c = '-'

/-- An interface name is templated into commands later, so only plain ones are taken. -/
def checkIface (name : String) : Except HttpError Unit :=
  if validIface name then .ok () else .error (badRequest "invalid lan_iface (expected a network interface name)")

/-- The subnets as prefixes, up to the first that is none. -/
def parseSubnets : List String → Except HttpError (List Prefix)
  | [] => .ok []
  | s :: ss =>
    match parsePrefix s with
    | none => .error (badRequest ("bad subnet " ++ s))
    | some p => (parseSubnets ss).map (p :: ·)

/-! ## Requests -/

/-- The body of `POST /api/nodes`. -/
structure CreateNodeReq where
  name : String
  lanIface : String
  subnets : List String
  deriving DecidableEq, Repr

/-- The body of `PATCH /api/nodes/{id}`: the fields that are given. -/
structure UpdateNodeReq where
  dns : Option String
  domains : Option (List String)
  name : Option String
  color : Option String
  deriving DecidableEq, Repr

/-- The body of `POST /api/clients`. -/
structure CreateClientReq where
  name : String
  dns : String
  deriving DecidableEq, Repr

/-- The body of `PATCH /api/clients/{id}`: the fields that are given. -/
structure UpdateClientReq where
  enabled : Option Bool
  dns : Option String
  name : Option String
  color : Option String
  deriving DecidableEq, Repr

/-- The body of `POST /api/enroll`. -/
structure EnrollReq where
  name : String
  hostname : String
  lanIface : String
  publicKey : String
  subnets : List String
  deriving DecidableEq, Repr

/-- `POST /api/nodes`: the checks, then one store call with a generated key pair. -/
def handleCreateNode (fresh : Fresh) (req : CreateNodeReq) : Except HttpError (List Op) :=
  if req.name = "" ∨ req.lanIface = "" ∨ req.subnets = [] then
    .error (badRequest "name, lan_iface and at least one subnet required")
  else do
    checkIface req.lanIface
    let subnets ← parseSubnets req.subnets
    .ok [.createNode fresh.id req.name req.lanIface subnets fresh.keys fresh.psk]

/-- The fields that are present, each with a store call of its own. -/
def handleUpdateNode (id : Uuid) (req : UpdateNodeReq) : Except HttpError (List Op) :=
  if req.name = some "" then .error (badRequest "name required")
  else .ok (req.name.toList.map (.renameNode id) ++ req.dns.toList.map (.setNodeDNS id) ++
    req.domains.toList.map (.setNodeDomains id) ++ req.color.toList.map (.setNodeColor id))

/-- `POST /api/clients`: the check, then one store call with a generated key pair. -/
def handleCreateClient (fresh : Fresh) (req : CreateClientReq) : Except HttpError (List Op) :=
  if req.name = "" then .error (badRequest "name required")
  else .ok [.createClient fresh.id req.name req.dns fresh.keys ""]

/-- The fields that are present; `enabled` and `dns` count only together. -/
def handleUpdateClient (id : Uuid) (req : UpdateClientReq) : Except HttpError (List Op) :=
  if req.name = some "" then .error (badRequest "name required")
  else .ok (req.name.toList.map (.renameClient id) ++
    (match req.enabled, req.dns with
      | some enabled, some dns => [.updateClient id enabled dns]
      | _, _ => []) ++
    req.color.toList.map (.setClientColor id))

/-- A mutating request of an operator. -/
inductive AdminReq where
  | createNode (req : CreateNodeReq)
  | updateNode (id : Uuid) (req : UpdateNodeReq)
  | deleteNode (id : Uuid)
  | approveNode (id : Uuid)
  | rejectNode (id : Uuid)
  | linkNode (src dst : Uuid)
  | unlinkNode (src dst : Uuid)
  | createClient (req : CreateClientReq)
  | updateClient (id : Uuid) (req : UpdateClientReq)
  | deleteClient (id : Uuid)
  | grant (clientId nodeId : Uuid)
  | revoke (clientId nodeId : Uuid)
  | setGrantRules (clientId nodeId : Uuid) (rules : List RuleDTO)
  | setGrantExit (clientId nodeId : Uuid) (exit : Bool)
  deriving DecidableEq, Repr

/-- The store calls a request makes before its reconcile. -/
def AdminReq.calls (fresh : Fresh) : AdminReq → Except HttpError (List Op)
  | createNode req => handleCreateNode fresh req
  | updateNode id req => handleUpdateNode id req
  | deleteNode id => .ok [.deleteNode id]
  | approveNode id => .ok [.approveNode id]
  | rejectNode id => .ok [.rejectNode id]
  | linkNode src dst => .ok [.setNodeLink src dst]
  | unlinkNode src dst => .ok [.deleteNodeLink src dst]
  | createClient req => handleCreateClient fresh req
  | updateClient id req => handleUpdateClient id req
  | deleteClient id => .ok [.deleteClient id]
  | grant clientId nodeId => .ok [.setGrant clientId nodeId]
  | revoke clientId nodeId => .ok [.deleteGrant clientId nodeId]
  | setGrantRules clientId nodeId rules => .ok [.setGrantRules clientId nodeId rules]
  | setGrantExit clientId nodeId exit => .ok [.setGrantExit clientId nodeId exit]

/-- The enrolment endpoint: gated by the stored secret, if there is one. A public key, an interface and
    subnets are required; the name falls back to the host name. -/
def handleEnroll (fresh : Fresh) (secret header : String) (req : EnrollReq) : Except HttpError Op :=
  if secret ≠ "" ∧ header ≠ secret then .error ⟨401, "invalid or missing enrollment secret"⟩
  else if req.publicKey = "" ∨ req.lanIface = "" ∨ req.subnets = [] then
    .error (badRequest "public_key, lan_iface and subnets required")
  else do
    checkIface req.lanIface
    let subnets ← parseSubnets req.subnets
    .ok (.enrollNode fresh.id fresh.token (if req.name = "" then req.hostname else req.name) req.hostname
      req.lanIface req.publicKey subnets fresh.row)

/-! ## Accepted requests -/

theorem ok_of_bind_ok {ε α β : Type} {x : Except ε α} {f : α → Except ε β} {b : β}
    (h : (x >>= f) = .ok b) : ∃ a, x = .ok a ∧ f a = .ok b := by
  cases x with
  | error e => exact absurd h (by simp [bind, Except.bind])
  | ok a => exact ⟨a, rfl, h⟩

/-- The store calls that a request can lead to. -/
inductive AdminReq.Sends (fresh : Fresh) : AdminReq → Op → Prop
  | createNode {req subnets} (hsubnets : parseSubnets req.subnets = .ok subnets) :
    Sends fresh (.createNode req) (.createNode fresh.id req.name req.lanIface subnets fresh.keys fresh.psk)
  | renameNode {id req name} (hname : name ∈ req.name) : Sends fresh (.updateNode id req) (.renameNode id name)
  | setNodeDNS {id req dns} (hdns : dns ∈ req.dns) : Sends fresh (.updateNode id req) (.setNodeDNS id dns)
  | setNodeDomains {id req domains} (hdomains : domains ∈ req.domains) :
    Sends fresh (.updateNode id req) (.setNodeDomains id domains)
  | setNodeColor {id req color} (hcolor : color ∈ req.color) :
    Sends fresh (.updateNode id req) (.setNodeColor id color)
  | deleteNode {id} : Sends fresh (.deleteNode id) (.deleteNode id)
  | approveNode {id} : Sends fresh (.approveNode id) (.approveNode id)
  | rejectNode {id} : Sends fresh (.rejectNode id) (.rejectNode id)
  | linkNode {src dst} : Sends fresh (.linkNode src dst) (.setNodeLink src dst)
  | unlinkNode {src dst} : Sends fresh (.unlinkNode src dst) (.deleteNodeLink src dst)
  | createClient {req} : Sends fresh (.createClient req) (.createClient fresh.id req.name req.dns fresh.keys "")
  | renameClient {id req name} (hname : name ∈ req.name) :
    Sends fresh (.updateClient id req) (.renameClient id name)
  | updateClient {id req enabled dns} (henabled : enabled ∈ req.enabled) (hdns : dns ∈ req.dns) :
    Sends fresh (.updateClient id req) (.updateClient id enabled dns)
  | setClientColor {id req color} (hcolor : color ∈ req.color) :
    Sends fresh (.updateClient id req) (.setClientColor id color)
  | deleteClient {id} : Sends fresh (.deleteClient id) (.deleteClient id)
  | grant {clientId nodeId} : Sends fresh (.grant clientId nodeId) (.setGrant clientId nodeId)
  | revoke {clientId nodeId} : Sends fresh (.revoke clientId nodeId) (.deleteGrant clientId nodeId)
  | setGrantRules {clientId nodeId rules} :
    Sends fresh (.setGrantRules clientId nodeId rules) (.setGrantRules clientId nodeId rules)
  | setGrantExit {clientId nodeId exit} :
    Sends fresh (.setGrantExit clientId nodeId exit) (.setGrantExit clientId nodeId exit)

/-- **What a request sends.** Each call of an accepted request is one of these. -/
theorem sends_of_calls {fresh : Fresh} {req : AdminReq} {ops : List Op} {op : Op}
    (hcalls : req.calls fresh = .ok ops) (hop : op ∈ ops) : req.Sends fresh op := by
  have hone : ∀ {o : Op}, req.Sends fresh o → Except.ok (ε := HttpError) [o] = .ok ops → req.Sends fresh op := by
    intro o h₀ h
    obtain rfl := Except.ok.inj h
    rw [List.mem_singleton.mp hop]
    exact h₀
  cases req with
  | createNode req =>
    simp only [AdminReq.calls, handleCreateNode] at hcalls
    split at hcalls
    · exact absurd hcalls (by simp)
    · obtain ⟨_, -, hcalls⟩ := ok_of_bind_ok hcalls
      obtain ⟨subnets, hsubnets, hcalls⟩ := ok_of_bind_ok hcalls
      exact hone (.createNode hsubnets) hcalls
  | updateNode id req =>
    simp only [AdminReq.calls, handleUpdateNode] at hcalls
    split at hcalls
    · exact absurd hcalls (by simp)
    · obtain rfl := Except.ok.inj hcalls
      simp only [List.mem_append, List.mem_map, Option.mem_toList] at hop
      -- one call for each field that is set
      rcases hop with ((⟨_, h, rfl⟩ | ⟨_, h, rfl⟩) | ⟨_, h, rfl⟩) | ⟨_, h, rfl⟩
      · exact .renameNode h
      · exact .setNodeDNS h
      · exact .setNodeDomains h
      · exact .setNodeColor h
  | createClient req =>
    simp only [AdminReq.calls, handleCreateClient] at hcalls
    split at hcalls
    · exact absurd hcalls (by simp)
    · exact hone .createClient hcalls
  | updateClient id req =>
    simp only [AdminReq.calls, handleUpdateClient] at hcalls
    split at hcalls
    · exact absurd hcalls (by simp)
    · obtain rfl := Except.ok.inj hcalls
      simp only [List.mem_append, List.mem_map, Option.mem_toList] at hop
      rcases hop with (⟨_, h, rfl⟩ | h) | ⟨_, h, rfl⟩
      · exact .renameClient h
      · -- `enabled` and `dns` are written together or not at all
        split at h
        · rename_i enabled dns henabled hdns
          rw [List.mem_singleton.mp h]
          exact .updateClient henabled hdns
        · exact absurd h List.not_mem_nil
      · exact .setClientColor h
  | deleteNode id => exact hone .deleteNode hcalls
  | approveNode id => exact hone .approveNode hcalls
  | rejectNode id => exact hone .rejectNode hcalls
  | linkNode src dst => exact hone .linkNode hcalls
  | unlinkNode src dst => exact hone .unlinkNode hcalls
  | deleteClient id => exact hone .deleteClient hcalls
  | grant clientId nodeId => exact hone .grant hcalls
  | revoke clientId nodeId => exact hone .revoke hcalls
  | setGrantRules clientId nodeId rules => exact hone .setGrantRules hcalls
  | setGrantExit clientId nodeId exit => exact hone .setGrantExit hcalls

/-- Every parsed subnet is one of the texts. -/
theorem mem_parseSubnets {ss : List String} {ps : List Prefix} (h : parseSubnets ss = .ok ps) {p : Prefix}
    (hp : p ∈ ps) : ∃ s ∈ ss, parsePrefix s = some p := by
  induction ss generalizing ps with
  | nil =>
    obtain rfl := Except.ok.inj h
    exact absurd hp List.not_mem_nil
  | cons s ss ih =>
    rw [parseSubnets] at h
    split at h
    · exact absurd h (by simp)
    · rename_i q hq
      cases hrest : parseSubnets ss with
      | error e =>
        rw [hrest] at h
        exact absurd h (by simp [Except.map])
      | ok qs =>
        rw [hrest] at h
        obtain rfl := Except.ok.inj h
        rcases List.mem_cons.mp hp with rfl | hp
        · exact ⟨s, List.mem_cons_self, hq⟩
        · obtain ⟨s', hs', hparse⟩ := ih hrest hp
          exact ⟨s', List.mem_cons_of_mem _ hs', hparse⟩

/-- An accepted announcement is stored as it was sent. -/
theorem handleEnroll_ok {fresh : Fresh} {secret header : String} {req : EnrollReq} {op : Op}
    (h : handleEnroll fresh secret header req = .ok op) :
    ∃ subnets, op = .enrollNode fresh.id fresh.token (if req.name = "" then req.hostname else req.name)
      req.hostname req.lanIface req.publicKey subnets fresh.row := by
  unfold handleEnroll at h
  split at h
  · exact absurd h (by simp)
  · split at h
    · exact absurd h (by simp)
    · obtain ⟨_, -, h⟩ := ok_of_bind_ok h
      obtain ⟨subnets, -, h⟩ := ok_of_bind_ok h
      exact ⟨subnets, (Except.ok.inj h).symm⟩

/-- An accepted announcement carries subnets. -/
theorem handleEnroll_subnets {fresh : Fresh} {secret header : String} {req : EnrollReq} {op : Op}
    (h : handleEnroll fresh secret header req = .ok op) :
    ∃ subnets, parseSubnets req.subnets = .ok subnets ∧ subnets ≠ [] ∧
      op = .enrollNode fresh.id fresh.token (if req.name = "" then req.hostname else req.name) req.hostname
        req.lanIface req.publicKey subnets fresh.row := by
  unfold handleEnroll at h
  split at h
  · exact absurd h (by simp)
  · split at h
    · exact absurd h (by simp)
    · rename_i hfields
      obtain ⟨_, -, h⟩ := ok_of_bind_ok h
      obtain ⟨subnets, hparse, h⟩ := ok_of_bind_ok h
      refine ⟨subnets, hparse, ?_, (Except.ok.inj h).symm⟩
      rintro rfl
      cases hreq : req.subnets with
      | nil => exact hfields (.inr (.inr hreq))
      | cons s ss =>
        rw [hreq, parseSubnets] at hparse
        split at hparse
        · exact absurd hparse (by simp)
        · cases hrest : parseSubnets ss with
          | error e => rw [hrest] at hparse; exact absurd hparse (by simp [Except.map])
          | ok ps => rw [hrest] at hparse; exact absurd hparse (by simp [Except.map])

/-- An accepted announcement carries a public key. -/
theorem handleEnroll_key {fresh : Fresh} {secret header : String} {req : EnrollReq} {op : Op}
    (h : handleEnroll fresh secret header req = .ok op) : req.publicKey ≠ "" := by
  unfold handleEnroll at h
  split at h
  · exact absurd h (by simp)
  · split at h
    · exact absurd h (by simp)
    · rename_i hfields
      exact fun hkey => hfields (.inl hkey)

end Api
end BeautyAwg
