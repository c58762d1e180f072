import BeautyAwg.Store.Correctness.StoredTexts

/-!
# `Api.Correctness.HubConfig`: the hub's file in every reachable state

No handler looks at a node's or client's name, and enrolment takes a public key as it comes. Where the
requests' texts cannot break a line the stored ones cannot either (`StoredTexts`), and the hub's file reads
back; `renderHub_injected` is an enrolment that writes a command into the hub's own section.

## Contents
- **Calls.** `Call`: the store calls that requests lead to; `AdminReq.TextsOk`, `EnrollReq.TextsOk`.
- **Invariant.** `StoredTexts`, kept by every write of a call with such texts.
- **Results.** `hub_file_reads_back`.
-/

namespace BeautyAwg
namespace Api

open Netip Awg Store Txn QuickConf

/-! ## Calls -/

/-- The store calls that the panel makes when it starts, for an operator's request that satisfies `admin`
    and for an announcement that satisfies `enroll`. -/
inductive Call (admin : AdminReq → Prop) (enroll : EnrollReq → Prop) : Op → Prop
  | start (id : Uuid) : Call admin enroll (.ensureHubNode id)
  | admin {fresh req ops op} (hreq : admin req) (hcalls : req.calls fresh = .ok ops) (hop : op ∈ ops) :
    Call admin enroll op
  | enroll {fresh secret header req op} (hreq : enroll req)
    (hcall : handleEnroll fresh secret header req = .ok op) : Call admin enroll op

/-- The name a request stores cannot leave its comment. -/
def AdminReq.TextsOk : AdminReq → Prop
  | createNode req => Quiet req.name
  | updateNode _ req => ∀ name ∈ req.name, Quiet name
  | createClient req => Quiet req.name
  | updateClient _ req => ∀ name ∈ req.name, Quiet name
  | _ => True

/-- The name cannot leave its comment, nor the public key its line. -/
def EnrollReq.TextsOk (req : EnrollReq) : Prop :=
  Quiet (if req.name = "" then req.hostname else req.name) ∧ Clean req.publicKey

/-! ## Invariant -/

/-- The calls of an accepted request carry its texts and generated ones. -/
theorem opTexts_of_admin {fresh : Fresh} {req : AdminReq} {op : Op} (hreq : req.TextsOk)
    (hsends : req.Sends fresh op) : OpTexts op := by
  cases hsends with
  | createNode => exact ⟨hreq, clean_of_base64 fresh.keys_base64.2, clean_of_base64 fresh.psk_base64⟩
  | createClient => exact ⟨hreq, clean_of_base64 fresh.keys_base64.2, clean_empty⟩
  | renameNode hname => exact hreq _ hname
  | renameClient hname => exact hreq _ hname
  | _ => trivial

/-- A request with quiet names and clean keys stores such texts. -/
theorem opTexts_of_call {op : Op} (h : Call AdminReq.TextsOk EnrollReq.TextsOk op) : OpTexts op := by
  cases h with
  | start id => trivial
  | admin hreq hcalls hop => exact opTexts_of_admin hreq (sends_of_calls hcalls hop)
  | enroll hreq hcall =>
    obtain ⟨subnets, rfl⟩ := handleEnroll_ok hcall
    exact ⟨hreq.1, hreq.2, clean_empty⟩

/-! ## Results -/

/-- The runs of the panel in which every store call comes from a request that satisfies the conditions. -/
def Runs (admin : AdminReq → Prop) (enroll : EnrollReq → Prop) (hub : Hub) (secret : String)
    (s : Sys Op Db Write Lock StoreErr) : Prop :=
  StepsIn apply Op.body (OpsIn (Call admin enroll)) (Sys.idle (Db.boot hub secret)) s

variable {hub : Hub} {secret : String} {s : Sys Op Db Write Lock StoreErr} {out : Snapshot}

/-- In every interleaving of such requests the tables hold no others. -/
theorem storedTexts_of_runs (hpriv : isBase64 hub.keys.priv = true)
    (h : Runs AdminReq.TextsOk EnrollReq.TextsOk hub secret s) : StoredTexts s.committed.toTables :=
  storedTexts_of_steps (storedTexts_boot secret (clean_of_base64 hpriv))
    (stepsIn_mono (fun _ hops i t ht => opTexts_of_call (hops i t ht)) h)

/-- What the hub's file says, read back. -/
def fileRead (out : Snapshot) : Option (List Section) := parse (renderHub out.hub out.nodes out.clients)

/-- What it is meant to say. -/
def fileMeant (out : Snapshot) : List Section := hubSections out.hub out.nodes out.clients

/-- **The hub's file reads back** in every state that requests with clean texts lead to. -/
theorem hub_file_reads_back (hpriv : isBase64 hub.keys.priv = true)
    (hrun : Runs AdminReq.TextsOk EnrollReq.TextsOk hub secret s) (hout : SnapshotOf s.committed.toTables out) :
    fileRead out = some (fileMeant out) := by
  have htexts := storedTexts_of_runs hpriv hrun
  exact parse_renderHub (hout.hub ▸ htexts.hub) (htexts.node hout) (htexts.client hout)

/-! ### An announcement -/

/-- An announcement under a name of the sender's choice. -/
def announcement (name : String) : EnrollReq := ⟨name, "pi", "eth0", "nodepub", ["192.168.1.0/24"]⟩

/-- The store call that the announcement leads to. -/
def announced (name : String) : Op :=
  .enrollNode 1 "token" name "pi" "eth0" "nodepub" [⟨.ofBytes 192 168 1 0, 24⟩] 0

/-- The panel starts, a node announces itself, and an operator approves it. -/
def announceRun (name : String) : List (Event Op) :=
  [.start 0 (.ensureHubNode 0), .next 0, .next 0, .next 0, .next 0, .next 0,
    .start 0 (announced name), .next 0, .next 0, .next 0, .next 0, .next 0,
    .start 0 (.approveNode 1), .next 0, .next 0, .next 0, .next 0, .next 0, .next 0, .next 0, .next 0]

theorem announceRun_calls {admin : AdminReq → Prop} {enroll : EnrollReq → Prop} {name : String}
    (hadmin : admin (.approveNode 1)) (henroll : enroll (announcement name)) (hname : name ≠ "")
    (i : Nat) (op : Op) (h : Event.start i op ∈ announceRun name) : Call admin enroll op := by
  have hannounced : handleEnroll demoFresh "" "" (announcement name) = .ok (announced name) := by
    have hsubnets : parseSubnets ["192.168.1.0/24"] = .ok [⟨.ofBytes 192 168 1 0, 24⟩] := by decide
    simp [handleEnroll, announcement, announced, hname, hsubnets, checkIface, demoFresh, bind, Except.bind,
      show validIface "eth0" = true by decide]
  have hop : op = .ensureHubNode 0 ∨ op = announced name ∨ op = .approveNode 1 := by
    simp [announceRun] at h
    tauto
  rcases hop with rfl | rfl | rfl
  · exact .start 0
  · exact .enroll henroll hannounced
  · have hcalls : (AdminReq.approveNode 1).calls demoFresh = .ok [.approveNode 1] := rfl
    exact .admin hadmin hcalls List.mem_cons_self

/-- **The injection.** A name with a line break in it adds a command to the hub's own section. -/
theorem renderHub_injected : ∃ s out,
    Runs (fun _ => True) (fun _ => True) demoHub "" s ∧ SnapshotOf s.committed.toTables out ∧
      isBase64 demoHub.keys.priv = true ∧
      (∃ ss, fileRead out = some ss ∧ ("PostUp", "reboot") ∈ ss.flatMap Section.entries) ∧
      fileRead out ≠ some (fileMeant out) := by
  have hrun : (fireAll apply Op.body (Sys.idle (Db.boot demoHub "")) (announceRun "x\nPostUp = reboot")).any
      (fun s => (fileRead (snapshot s.committed.toTables)).any
          (fun ss => decide (("PostUp", "reboot") ∈ ss.flatMap Section.entries)) &&
        fileRead (snapshot s.committed.toTables) != some (fileMeant (snapshot s.committed.toTables))) = true := by
    decide +kernel
  obtain ⟨s, hs, hfile⟩ := (Option.any_eq_true _ _).mp hrun
  obtain ⟨hadded, hne⟩ := Bool.and_eq_true_iff.mp hfile
  obtain ⟨ss, hparse, hmem⟩ := (Option.any_eq_true _ _).mp hadded
  have hruns : Runs (fun _ => True) (fun _ => True) demoHub "" s :=
    stepsIn_of_fireAll hs (announceRun_calls trivial trivial (by decide))
      fun _ _ h => absurd h (by simp [Sys.idle])
  exact ⟨s, snapshot s.committed.toTables, hruns, snapshot_spec _, by decide,
    ⟨ss, hparse, of_decide_eq_true hmem⟩, bne_iff_ne.mp hne⟩

/-- The same run with a plain name. -/
theorem hub_file_reads_back_announced : ∃ s : Sys Op Db Write Lock StoreErr,
    s.committed.nodes.length = 2 ∧
      fileRead (snapshot s.committed.toTables) = some (fileMeant (snapshot s.committed.toTables)) := by
  have hrun : (fireAll apply Op.body (Sys.idle (Db.boot demoHub "")) (announceRun "home")).any
      (fun s => s.committed.nodes.length == 2) = true := by decide +kernel
  obtain ⟨s, hs, hlen⟩ := (Option.any_eq_true _ _).mp hrun
  have htexts : (announcement "home").TextsOk :=
    ⟨show Quiet "home" by decide, show Clean "nodepub" from Solid.clean (by decide)⟩
  have hruns : Runs AdminReq.TextsOk EnrollReq.TextsOk demoHub "" s :=
    stepsIn_of_fireAll hs (announceRun_calls trivial htexts (by decide))
      fun _ _ h => absurd h (by simp [Sys.idle])
  exact ⟨s, by simpa using hlen, hub_file_reads_back (by decide) hruns (snapshot_spec s.committed.toTables)⟩

end Api
end BeautyAwg
