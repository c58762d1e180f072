import BeautyAwg.Awg.Params
import BeautyAwg.Store.Commits

/-!
# `Store.HubRow`: the singleton row

What the panel's start does to the hub row (`cmd/panel/main.go`, `EnsureHub` of
`internal/store/api_queries.go`), and the life of a database: starts of the panel and, between them, calls.
-/

namespace BeautyAwg
namespace Store

open Netip Awg Txn

/-- What a start of the panel brings: its environment, a key pair, a source of randomness. -/
structure Start where
  endpoint : String
  listenPort : Int
  address : Addr
  pool : Prefix
  dns : String
  enrollSecret : String
  wanIface : String
  resolver : Bool
  resolverPort : Int
  keys : Keypair
  rand : Rand

/-- The row of a first start. The columns that the insert leaves out have the table's defaults. -/
def Start.hub (st : Start) (p : ObfuscationParams) : Hub where
  endpoint := st.endpoint
  listenPort := st.listenPort
  address := st.address
  poolCIDR := st.pool
  keys := st.keys
  params := p
  dns := st.dns
  wanIface := "eth0"
  resolver := false
  resolverPort := 0

/-- `EnsureHub`, on a database that may have no hub row yet. -/
def ensureHub (st : Start) (fuel : Nat) : Option Db → Option (Except ParamsErr Db)
  | some db => some (.ok db)
  | none =>
    match newRandomParams st.rand fuel with
    | none => none
    | some (.error e) => some (.error e)
    | some (.ok p) => some (.ok (Db.boot (st.hub p) ""))

/-- The tables with the hub row's own columns changed. No constraint reads them. -/
def Db.setHub (db : Db) (f : Hub → Hub) (secret : String) : Db where
  toTables := { db.toTables with hub := f db.hub, enrollSecret := secret }
  wf := { db.wf with }

/-- `SetEnrollSecretIfEmpty`, `SetWanIface`, and what `GetHub` adds from the panel's configuration. -/
def Db.configure (db : Db) (st : Start) : Db :=
  db.setHub
    (fun hub =>
      { hub with
        wanIface := if st.wanIface = "" then hub.wanIface else st.wanIface
        resolver := st.resolver
        resolverPort := st.resolverPort })
    (if db.enrollSecret = "" then st.enrollSecret else db.enrollSecret)

/-- A start of the panel, or calls of any overlap up to some point. -/
inductive LifeStep : Option Db → Option Db → Prop
  | start {st fuel d db} : ensureHub st fuel d = some (.ok db) → LifeStep d (some (db.configure st))
  | calls {c s} : Steps apply Op.body (Sys.idle c) s → LifeStep (some c) (some s.committed)

/-- The life of a database up to some point. -/
def Life : Option Db → Option Db → Prop := Relation.ReflTransGen LifeStep

theorem hub_of_calls {c : Db} {s : Server} (h : Steps apply Op.body (Sys.idle c) s) : s.committed.hub = c.hub := by
  refine Protocol.good_of_commits (W := fun _ _ => True) (I := fun d : Db => d.hub = c.hub)
    (fun op => allWrites_true _) ?_ rfl h
  intro s i t d _ hs _ _ _ happly
  rw [hub_of_commit happly, hs]

/-- No step of a database's life changes the profile of its hub row. -/
theorem params_of_lifeStep {c : Db} {d : Option Db} (h : LifeStep (some c) d) :
    ∃ c', d = some c' ∧ c'.hub.params = c.hub.params := by
  cases h with
  | start h =>
    obtain rfl := Except.ok.inj (Option.some.inj h)
    exact ⟨_, rfl, rfl⟩
  | calls h => exact ⟨_, rfl, by rw [hub_of_calls h]⟩

theorem params_of_life {c : Db} {d : Option Db} (h : Life (some c) d) :
    ∃ c', d = some c' ∧ c'.hub.params = c.hub.params := by
  induction h with
  | refl => exact ⟨c, rfl, rfl⟩
  | tail _ hstep ih =>
    obtain ⟨c', rfl, hc'⟩ := ih
    obtain ⟨c'', rfl, hc''⟩ := params_of_lifeStep hstep
    exact ⟨c'', rfl, hc''.trans hc'⟩

/-- The profile of the first start. -/
theorem params_of_ensureHub {st : Start} {fuel : Nat} {db : Db} (h : ensureHub st fuel none = some (.ok db)) :
    newRandomParams st.rand fuel = some (.ok db.hub.params) := by
  rw [ensureHub] at h
  split at h
  · cases h
  · simp at h
  · rename_i p hp
    obtain rfl := Except.ok.inj (Option.some.inj h)
    exact hp

end Store
end BeautyAwg
