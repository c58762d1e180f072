import BeautyAwg.Lib.Base64
import BeautyAwg.Lib.Bytes
import BeautyAwg.Lib.Strconv

/-!
# `Api.Session`: session tokens

`signToken` and `verifyToken` of `internal/api/auth.go`. A string is its bytes here: a token comes from a cookie and
need not be text. HMAC-SHA256 is a parameter, a function of a key and a message into 32 bytes.
-/

namespace BeautyAwg
namespace Api

open Strconv Bytes

/-! ## Time -/

/-- The last second of `time.Time`, which counts from the year 1 in 64 bits, as a Unix time. -/
def lastSecond : Int := 2 ^ 63 - 1 - 62135596800

/-- A time in whole seconds, as its Unix time. -/
structure Instant where
  unix : Int
  low : -2 ^ 63 ≤ unix
  high : unix ≤ lastSecond

/-- `Time.Add`, which stops at the last second. -/
def Instant.add (t : Instant) (secs : Nat) : Instant where
  unix := min (t.unix + secs) lastSecond
  low := Int.le_min.mpr ⟨by have := t.low; omega, by decide⟩
  high := Int.min_le_right _ _

/-- 12 hours, in seconds. -/
def sessionTTL : Nat := 12 * 3600

/-! ## Tokens -/

section Tokens

variable (mac : Bytes → Bytes → Vector UInt8 32) (secret : Bytes) (now : Instant)

/-- What parts a token's payload from its tag. -/
def dot : UInt8 := '.'.toUInt8

/-- What parts the admin's id from the expiry. -/
def bar : UInt8 := '|'.toUInt8

/-- The tag of a payload, as text. -/
def hmac (payload : Bytes) : Bytes := Base64.encode Base64.url (mac secret payload).toList

/-- The payload, the admin's id and the expiry, with its tag behind it. -/
def signToken (adminID : Bytes) : Bytes :=
  let exp := (now.add sessionTTL).unix
  let payload := adminID ++ bar :: ascii (formatInt exp)
  Base64.encode Base64.url payload ++ dot :: hmac mac secret payload

/-- The admin's id, if the token is valid and has not expired. -/
def verifyToken (token : Bytes) : Option Bytes := do
  let (text, tag) ← splitN dot token
  let payload ← Base64.decode Base64.url text
  if hmac mac secret payload ≠ tag then none
  else
    let (adminID, expiry) ← splitN bar payload
    let (exp, err) := parseInt (chars expiry)
    if err ≠ none ∨ exp < now.unix then none else some adminID

end Tokens

end Api
end BeautyAwg
