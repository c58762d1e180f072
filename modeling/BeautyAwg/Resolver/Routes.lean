import BeautyAwg.Lib.Json
import BeautyAwg.Lib.LongestKey
import BeautyAwg.Store.Schema
import BeautyAwg.Lib.Unicode

/-!
# `Resolver.Routes`: which upstream a query goes to

`SetRoutes` and `pick` of `internal/resolver`, and the store's `DomainRoutes` that feeds them. A Go map is a list
of fields with distinct keys; ranging over it takes them in any order, and so does a query without ORDER BY, so
what the calls return together is a relation.

## Contents
- **Resolver.** `withPort`, `normal`, `setRoutes`, `pick`; `Resolves`: what `pick` can return after `SetRoutes`.
- **Store.** `domainRows`, `DomainRoutesRead`; `Upstream`: the three calls together.
-/

namespace BeautyAwg
namespace Resolver

open Store LongestKey

/-! ## Resolver -/

/-- A server without a port gets port 53. -/
def withPort (s : String) : String :=
  if s = "" then s else if ':' ∈ s.toList ∧ ¬ ']' ∈ s.toList then s else s ++ ":53"

/-- `strings.TrimSuffix(s, ".")`. -/
def trimDot (s : String) : String :=
  if s.toList.getLast? = some '.' then String.ofList s.toList.dropLast else s

/-- A domain or a query name as `SetRoutes` and `pick` compare them. -/
def normal (s : String) : String := Unicode.lowerString (trimDot s)

/-- `routing`. -/
structure Routing where
  byDomain : List (String × String)
  upstream : String
  deriving DecidableEq, Repr

/-- The default upstream, which falls back to a public one. -/
def defaultUpstream (s : String) : String := withPort (if s = "" then "1.1.1.1:53" else s)

/-- `SetRoutes`, ranging over the map in the order of the list. -/
def setRoutes (byDomain : List (String × String)) (default : String) : Routing where
  byDomain := byDomain.foldl (fun m e => setField m (normal e.1) (withPort e.2)) []
  upstream := defaultUpstream default

/-- `len(s)`: the bytes of its UTF-8. -/
def byteLen (s : String) : Nat := weight Char.utf8Size s.toList

/-- The name is the domain or ends with it after a dot. -/
def Under (domain name : String) : Prop := Captures '.' domain.toList name.toList

instance (domain name : String) : Decidable (Under domain name) := inferInstanceAs (Decidable (Captures _ _ _))

/-- `pick`, ranging over the map in the order of the list. -/
def pick (rt : Routing) (qname : String) : String :=
  longest (fun domain => Under domain (normal qname)) byteLen rt.byDomain rt.upstream

/-- What `pick` can return after `SetRoutes`, whatever orders the two range in. -/
def Resolves (byDomain : List (String × String)) (default qname out : String) : Prop :=
  ∃ es fields : List (String × String), es.Perm byDomain ∧ fields.Perm (setRoutes es default).byDomain ∧
    out = pick ⟨fields, (setRoutes es default).upstream⟩ qname

/-! ## Store -/

/-- The rows of `DomainRoutes`: the domains of active nodes that have a DNS server. -/
def domainRows (t : Tables) : List (String × String) :=
  t.domains.filterMap fun d =>
    (t.nodes.find? fun n => n.id = d.nodeId ∧ n.status = .active ∧ n.dns ≠ "").map fun n => (d.domain, n.dns)

/-- What `DomainRoutes` can return: of two rows with one domain the later counts. -/
def DomainRoutesRead (t : Tables) (byDomain : List (String × String)) : Prop :=
  ∃ rows : List (String × String), rows.Perm (domainRows t) ∧ byDomain = rows.foldl (fun m r => setField m r.1 r.2) []

/-- The upstreams that a query can be sent to in this state of the database. -/
def Upstream (t : Tables) (default qname out : String) : Prop :=
  ∃ byDomain, DomainRoutesRead t byDomain ∧ Resolves byDomain default qname out

end Resolver
end BeautyAwg
