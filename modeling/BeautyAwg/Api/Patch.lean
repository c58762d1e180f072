import BeautyAwg.Api.Handlers
import BeautyAwg.Lib.Updates

/-!
# `Api.Patch`: the two PATCH handlers to their end

`Api.Handlers` says which store calls `handleUpdateNode` and `handleUpdateClient` make; here they are made, each
in a transaction of its own, up to the first that fails, and answered.
-/

namespace BeautyAwg
namespace Api

open Store Txn Updates

/-- What a PATCH is answered: nothing; the handler's own check; a refused store call, with its error as the
    body; or a reconcile that failed. -/
inductive PatchReply where
  | noContent
  | invalid (e : HttpError)
  | refused (code : Nat) (e : StoreErr)
  | reconcile (e : String)
  deriving DecidableEq, Repr

/-- Validation or a store call refused a field. -/
def PatchReply.isRefusal : PatchReply → Bool
  | .invalid _ | .refused .. => true
  | .noContent | .reconcile _ => false

/-- A store call. It can also fail for a reason of its own, such as a lost connection. -/
def storeCall (fault : Op → Option StoreErr) (op : Op) (db : Db) : Except StoreErr Db :=
  match fault op with
  | some e => .error e
  | none => (run apply op.body db).map Prod.snd

/-- The status for a refused store call. -/
def refusalCode : Op → Nat
  | .setNodeColor .. | .setClientColor .. => 400
  | _ => 500

/-- The checks, the store calls in turn, and the reconcile. -/
def patch (fault : Op → Option StoreErr) (reconcile : Db → Option String) (calls : Except HttpError (List Op))
    (db : Db) : Db × PatchReply :=
  match calls with
  | .error e => (db, .invalid e)
  | .ok ops =>
    match runUntil (storeCall fault) ops db with
    | (db', some (op, e)) => (db', .refused (refusalCode op) e)
    | (db', none) =>
      match reconcile db' with
      | some e => (db', .reconcile ("reconcile: " ++ e))
      | none => (db', .noContent)

/-- `PATCH /api/nodes/{id}`. -/
def patchNode (fault : Op → Option StoreErr) (reconcile : Db → Option String) (id : Uuid) (req : UpdateNodeReq) :
    Db → Db × PatchReply :=
  patch fault reconcile (handleUpdateNode id req)

/-- `PATCH /api/clients/{id}`. -/
def patchClient (fault : Op → Option StoreErr) (reconcile : Db → Option String) (id : Uuid)
    (req : UpdateClientReq) : Db → Db × PatchReply :=
  patch fault reconcile (handleUpdateClient id req)

end Api
end BeautyAwg
