import BeautyAwg.Api.Handlers
import BeautyAwg.Api.Session
import BeautyAwg.Store.HubRow

/-!
# `Api.Access`: who gets to change what

The panel as its clients see it: `internal/api/auth.go` and the routes of `internal/api/api.go` that lead to store
calls. Logins make cookies, cookies open the operator's routes, an announcement needs none. Requests are served at the
same time, so the calls of one run between those of others; a request that fails or whose client goes away stops
between two of its calls.

## Contents
- **Admins.** `bootstrapAdmin`, `handleLogin`.
- **Cookies.** `requireAuth`; `Unforged`: the tag is the panel's own.
- **The panel.** `Panel` with what it has signed and who has logged in; `Panel.Step`, `Panel.Run`.
-/

namespace BeautyAwg
namespace Api

open Strconv Bytes Store Txn

/-! ## Admins -/

/-- A row of `admins`. An id is the text of a UUID, which has no bar. -/
structure AdminRow where
  id : Bytes
  username : String
  hash : String
  id_plain : bar ∉ id

/-- What a start of the panel brings for its first admin: the environment, a row id, and what bcrypt makes of the
    password. -/
structure Boot where
  username : String
  password : String
  id : Bytes
  hash : Except String String
  id_plain : bar ∉ id

/-- The first admin, if there is none. -/
def bootstrapAdmin (boot : Boot) (admins : List AdminRow) : Except String (List AdminRow) :=
  if admins ≠ [] then .ok admins
  else if boot.username = "" ∨ boot.password = "" then
    .error "no admins exist; set ADMIN_USER and ADMIN_PASSWORD to bootstrap"
  else
    match boot.hash with
    | .error e => .error e
    | .ok hash => .ok [⟨boot.id, boot.username, hash, boot.id_plain⟩]

/-- The body of `POST /api/auth/login`. -/
structure LoginReq where
  username : String
  password : String
  deriving DecidableEq, Repr

section Requests

variable (mac : Bytes → Bytes → Vector UInt8 32) (matchesHash : String → String → Bool)

/-- The admin that the credentials are of. `matchesHash` is bcrypt's comparison. -/
def authenticate (admins : List AdminRow) (req : LoginReq) : Except HttpError AdminRow :=
  match admins.find? fun a => a.username = req.username with
  | none => .error ⟨401, "invalid credentials"⟩
  | some a => if matchesHash a.hash req.password then .ok a else .error ⟨401, "invalid credentials"⟩

/-- The session cookie of a login. -/
def handleLogin (secret : Bytes) (now : Instant) (admins : List AdminRow) (req : LoginReq) : Except HttpError Bytes :=
  (authenticate matchesHash admins req).map fun a => signToken mac secret now a.id

/-! ## Cookies -/

/-- The admin's id, for the routes behind it. -/
def requireAuth (secret : Bytes) (now : Instant) (cookie : Option Bytes) : Except HttpError Bytes :=
  match cookie.bind (verifyToken mac secret now) with
  | none => .error ⟨401, "unauthorized"⟩
  | some adminID => .ok adminID

/-- If the cookie carries the tag of its payload, then the panel has made this tag. -/
def Unforged (secret : Bytes) (signed : List (Bytes × Bytes)) (cookie : Option Bytes) : Prop :=
  ∀ token ∈ cookie, ∀ text payload, Base64.decode Base64.url text = some payload →
    token = text ++ dot :: hmac mac secret payload → (secret, payload) ∈ signed

/-! ## The panel -/

/-- A login that was let in. -/
structure Login where
  at_ : Instant
  admin : AdminRow
  password : String

/-- The database with the calls that run, the admins, the clock; what is left of each request; and, for the record,
    the payloads tagged so far, each under its secret, the logins, and the public keys of the announcements that were
    let in. -/
structure Panel where
  store : Server
  admins : List AdminRow
  secret : Bytes
  now : Instant
  queue : Nat → List Op
  signed : List (Bytes × Bytes)
  logins : List Login
  announced : List String

/-- Request `i` has these calls left to make. -/
def Panel.setQueue (p : Panel) (i : Nat) (ops : List Op) : Panel :=
  { p with queue := fun j => if j = i then ops else p.queue j }

/-- A number for a new request. -/
def Panel.Free (p : Panel) (i : Nat) : Prop := p.queue i = [] ∧ p.store.sessions i = none

/-- The payload of a token that is issued now. -/
def Panel.payload (p : Panel) (a : AdminRow) : Bytes :=
  a.id ++ bar :: ascii (formatInt (p.now.add sessionTTL).unix)

/-- The panel after a login. -/
def Panel.login (p : Panel) (req : LoginReq) : Panel :=
  match authenticate matchesHash p.admins req with
  | .error _ => p
  | .ok a =>
    { p with signed := (p.secret, p.payload a) :: p.signed, logins := ⟨p.now, a, req.password⟩ :: p.logins }

/-- The panel after an operator's request: the calls are still to be made. -/
def Panel.serve (p : Panel) (i : Nat) (cookie : Option Bytes) (fresh : Fresh) (req : AdminReq) : Panel :=
  match requireAuth mac p.secret p.now cookie with
  | .error _ => p
  | .ok _ =>
    match req.calls fresh with
    | .error _ => p
    | .ok ops => p.setQueue i ops

/-- The panel after an announcement: the call is still to be made. -/
def Panel.enroll (p : Panel) (i : Nat) (fresh : Fresh) (header : String) (req : EnrollReq) : Panel :=
  match handleEnroll fresh p.store.committed.enrollSecret header req with
  | .error _ => p
  | .ok op => { p.setQueue i [op] with announced := req.publicKey :: p.announced }

/-- The panel after a start: what ran is rolled back, the tokens' secret may be another. -/
def Panel.restarted (p : Panel) (admins : List AdminRow) (st : Start) (secret : Bytes) (hubNode : Uuid) : Panel :=
  { p with
    store := Sys.idle (p.store.committed.configure st)
    admins := admins
    secret := secret
    queue := fun i => if i = 0 then [.ensureHubNode hubNode] else [] }

/-- What happens next. Every request can come from anyone. -/
inductive Panel.Step : Panel → Panel → Prop
  | clock (p : Panel) (now : Instant) : Step p { p with now := now }
  | restart (p : Panel) (boot : Boot) (st : Start) (secret : Bytes) (hubNode : Uuid) {admins : List AdminRow}
      (hboot : bootstrapAdmin boot p.admins = .ok admins) : Step p (p.restarted admins st secret hubNode)
  | login (p : Panel) (req : LoginReq) : Step p (p.login matchesHash req)
  | serve (p : Panel) (i : Nat) (cookie : Option Bytes) (fresh : Fresh) (req : AdminReq) (hfree : p.Free i)
      (hcookie : Unforged mac p.secret p.signed cookie) : Step p (p.serve mac i cookie fresh req)
  | enroll (p : Panel) (i : Nat) (fresh : Fresh) (header : String) (req : EnrollReq) (hfree : p.Free i) :
    Step p (p.enroll i fresh header req)
  | begin (p : Panel) (i : Nat) {op : Op} {ops : List Op} {store : Server} (hqueue : p.queue i = op :: ops)
      (hfire : fire apply Op.body p.store (.start i op) = some store) : Step p { p.setQueue i ops with store := store }
  | next (p : Panel) (i : Nat) {store : Server} (hfire : fire apply Op.body p.store (.next i) = some store) :
    Step p { p with store := store }
  | rollback (p : Panel) (i : Nat) {store : Server} (hfire : fire apply Op.body p.store (.rollback i) = some store) :
    Step p { p.setQueue i [] with store := store }
  | drop (p : Panel) (i : Nat) : Step p (p.setQueue i [])

/-- Any number of steps of the panel. -/
def Panel.Run : Panel → Panel → Prop := Relation.ReflTransGen (Panel.Step mac matchesHash)

end Requests

end Api
end BeautyAwg
