import SddGov.Autonomy.ControlPlane
import SddGov.Autonomy.Receipt
import SddGov.Governance.ExternalActions

/-!
# Operation approvals

The decision store and the two programs that move an L3 approval through it:
`importOperationApproval` records a verified envelope,
`consumeOperationApproval` verifies the recorded envelope once more, compares
the row with what was signed, and asks the Broker for the nonce. The store is
only read and written under its lock.
-/

namespace SddGov.Autonomy

open SddGov.Effect SddGov.Python SddGov.Governance

/-! ## The decision store -/

/-- `_atomic_json`. -/
def atomicJson (file : StateFile) (value : Json) : HostProg Unit := do
  sys (ask (.makeParent file))
  writeTemporary file value
  sys (ask (.replace file value))

/-- A row of the store: an object with an id. -/
def decisionRow? : Json → Option Members
  | .obj m => if hasText m "decision_id" then some m else none
  | _ => none

/-- All rows, if each of them is one. -/
def decisionRows? : List Json → Option (List Members)
  | [] => some []
  | row :: rest =>
    match decisionRow? row, decisionRows? rest with
    | some m, some ms => some (m :: ms)
    | _, _ => none

/-- A decision store: its members, and its rows. -/
structure DecisionStore where
  members : Members
  decisions : List Members

/-- The contract of the store. -/
def decisionStore? : Json → Option DecisionStore
  | .obj m =>
    if pyEq (get (lit "schema_version") m) (.str (lit "1.0"))
        && keysEq m [lit "schema_version", lit "decisions"] then
      match get (lit "decisions") m with
      | .arr rows => (decisionRows? rows).map fun decisions => ⟨m, decisions⟩
      | _ => none
    else none
  | _ => none

/-- The store with these rows. -/
def DecisionStore.withRows (store : DecisionStore) (rows : List Members) : Json :=
  .obj (setMember (lit "decisions") (.arr (rows.map .obj)) store.members)

/-- The content of a store that does not exist. -/
def noDecisions : Json := .obj [(lit "schema_version", .str (lit "1.0")),
    (lit "decisions", .arr [])]

/-- The contract of the store, or its error. -/
def checkStore (data : Json) : Except Exn DecisionStore :=
  match decisionStore? data with
  | none => .error (valueError ".sddgov/decisions.json has an invalid contract")
  | some store => .ok store

/-- `_decision_store`. -/
def decisionStore : HostProg DecisionStore := do
  let data ← readJson .decisions noDecisions
  Prog.ofExcept (checkStore data)

/-! ## The runtime context -/

def runtimeContextFields : List String := ["repository", "project", "environment"]

/-- The contract of the runtime context. -/
def checkRuntimeContext (data : Members) : Except Exn Unit :=
  require (keysEq data (["schema_version", "repository", "project", "environment"].map lit)
      && pyEq (get (lit "schema_version") data) (.str (lit "1.0"))
      && runtimeContextFields.all (hasText data ·))
    "L3 runtime context has an invalid contract"

/-- The payload names the context the agent runs in. -/
def matchesContext (data : Members) : Json → Bool
  | .obj payload => runtimeContextFields.all fun f => pyEq (get (lit f) payload) (get (lit f) data)
  | _ => false

/-- `_require_matching_runtime_context`. -/
def requireMatchingRuntimeContext (payload : Json) : HostProg Unit := do
  let data ← raising (ask (.loadControlPlane .runtimeContext))
  Prog.ofExcept (checkRuntimeContext data)
  Prog.ofExcept (require (matchesContext data payload)
    "operation payload does not match the trusted runtime context")

/-! ## Import -/

/-- The row of an imported approval. -/
def approvalRow (v : VerifiedOperation) (envelope : Json) (recordedAt : Instant) : Members :=
  [(lit "decision_id", .str v.receipt.approvalId), (lit "risk_level", .str (lit "L3")),
    (lit "summary", .str v.receipt.summary), (lit "scope", .str v.receipt.scope),
    (lit "basis", .str (lit "verified owner-signed approval receipt for one concrete operation")),
    (lit "status", .str (lit "approved")), (lit "recorded_at", .str (stamp recordedAt)),
    (lit "reopen_condition",
      .str (lit "a different operation or changed scope requires a new signed receipt")),
    (lit "operation_id", .str v.receipt.operationId),
      (lit "approved_by", .str v.receipt.approvedBy),
    (lit "expires_at", .str v.receipt.expiresAt), (lit "consumed_at", .null),
    (lit "approval_nonce", .str v.receipt.nonce), (lit "receipt_sha256", .str v.receiptSha256),
    (lit "operation_payload_sha256", .str v.operationPayloadSha256),
    (lit "signature_algorithm", .str (lit "ed25519")), (lit "approval_envelope", envelope)]

/-- What an import returns. -/
def importResult (v : VerifiedOperation) : Members :=
  [(lit "approval_id", .str v.receipt.approvalId), (lit "operation_id", .str v.receipt.operationId),
    (lit "approved_by", .str v.receipt.approvedBy), (lit "expires_at", .str v.receipt.expiresAt),
    (lit "receipt_sha256", .str v.receiptSha256),
    (lit "operation_payload_sha256", .str v.operationPayloadSha256),
    (lit "verification", .str (lit "SIGNATURE_VERIFIED"))]

/-- The approval or its nonce is in the store already. -/
def alreadyImported (v : VerifiedOperation) (store : DecisionStore) : Bool :=
  store.decisions.any fun row =>
    pyEq (get (lit "decision_id") row) (.str v.receipt.approvalId)
      || pyEq (get (lit "approval_nonce") row) (.str v.receipt.nonce)

/-- The part of the import that runs under the lock. -/
def recordApproval (v : VerifiedOperation) (envelope : Json) : HostProg Unit := do
  let store ← decisionStore
  if alreadyImported v store then
    .raise (valueError "approval receipt or nonce was already imported")
  else do
    let recordedAt ← ask .now
    atomicJson .decisions
      (store.withRows (store.decisions ++ [approvalRow v envelope recordedAt]))

/-- `import_operation_approval`. -/
def importOperationApproval (C : Crypto) (path : PyStr) : HostProg Members := do
  let envelope ← readJson (.given path) .null
  let verified ← verifyOperationEnvelope C envelope
  requireMatchingRuntimeContext verified.receipt.operationPayload
  withLock .decisions (recordApproval verified envelope)
  pure (importResult verified)

/-! ## Consumption -/

/-- `_l3_approval_is_fresh` but for the clock: when the approval expires. -/
def approvalExpiry? (row : Members) (operationId : Json) : Option Int :=
  if pyEq (get (lit "risk_level") row) (.str (lit "L3"))
      && pyEq (get (lit "status") row) (.str (lit "approved"))
      && pyEq (get (lit "operation_id") row) operationId
      && pyEq (get (lit "consumed_at") row) .null then
    awareMicros? (get (lit "expires_at") row)
  else none

/-- `_l3_approval_is_fresh`. -/
def approvalIsFresh (row : Members) (operationId : Json) : HostProg Bool :=
  match approvalExpiry? row operationId with
  | none => pure false
  | some expiresAt => do
    let current ← ask .now
    pure (decide ((current.val : Int) < expiresAt))

/-- The row says what was signed. -/
def rowMatches (v : VerifiedOperation) (row : Members) : Bool :=
  [("decision_id", v.receipt.approvalId), ("summary", v.receipt.summary),
    ("scope", v.receipt.scope),
    ("operation_id", v.receipt.operationId), ("approved_by", v.receipt.approvedBy),
    ("expires_at", v.receipt.expiresAt), ("approval_nonce", v.receipt.nonce),
    ("receipt_sha256", v.receiptSha256), ("operation_payload_sha256", v.operationPayloadSha256),
    ("signature_algorithm", lit "ed25519")].all fun field =>
      pyEq (get (lit field.1) row) (.str field.2)

/-- `except ValueError: return None`. -/
def noneOnValueError {α : Type} (p : HostProg α) : HostProg (Option α) :=
  p.handle (fun a => .ret (some a)) fun
    | .value _ => .ret none
    | e => .raise e

/-- The mark of a control plane that did not consume the nonce. -/
def controlPlaneBlocked : Members := [(lit "_control_plane_blocked", .bool true)]

/-- The mark of a payload for another context. -/
def runtimeContextBlocked : Members := [(lit "_runtime_context_blocked", .bool true)]

/-- A row once it has been consumed. -/
def consumedRow (row : Members) (consumedAt : Instant) : Members :=
  setMember (lit "status") (.str (lit "completed"))
    (setMember (lit "consumed_at") (.str (stamp consumedAt)) row)

/-- Replace the first row that satisfies `p`. -/
def replaceFirst (p : Members → Bool) (row' : Members) : List Members → List Members
  | [] => []
  | row :: rest => if p row then row' :: rest else row :: replaceFirst p row' rest

/-- The row has this id. -/
def hasDecisionId (approvalId : Json) (row : Members) : Bool :=
  pyEq (get (lit "decision_id") row) approvalId

/-- The end of `_consume_operation_approval`: the nonce is consumed, and the row says so. -/
def consumeVerified (v : VerifiedOperation) (approvalId : Json) (store : DecisionStore)
    (row : Members) : HostProg (Option Members) := do
  let isConsumed ← consumeNonceViaControlPlane v.receipt.nonce v.receiptSha256
    v.operationPayloadSha256
  if isConsumed then do
    let consumedAt ← ask .now
    atomicJson .decisions (store.withRows
      (replaceFirst (hasDecisionId approvalId) (consumedRow row consumedAt) store.decisions))
    pure (some (consumedRow row consumedAt))
  else pure (some controlPlaneBlocked)

/-- The checks on one row: its own fields, its freshness, its envelope, and that they agree. -/
def verifyRow (C : Crypto) (operationId : Json) (requestedPayloadSha256 : PyStr) (row : Members) :
    HostProg (Option VerifiedOperation) :=
  if !pyEq (get (lit "risk_level") row) (.str (lit "L3"))
      || !pyEq (get (lit "operation_id") row) operationId
      || !pyEq (get (lit "consumed_at") row) .null then pure none
  else do
    let fresh ← approvalIsFresh row operationId
    if !fresh then pure none
    else do
      let verified ← noneOnValueError
        (verifyOperationEnvelope C (get (lit "approval_envelope") row))
      match verified with
      | none => pure none
      | some v =>
        if rowMatches v row && v.operationPayloadSha256 == requestedPayloadSha256 then pure (some v)
        else pure none

/-- The part of `_consume_operation_approval` that runs under the lock. -/
def consumeLocked (C : Crypto) (approvalId operationId : Json) (requestedPayloadSha256 : PyStr) :
    HostProg (Option Members) := do
  let store ← decisionStore
  match store.decisions.find? (hasDecisionId approvalId) with
  | none => pure none
  | some row => do
    let verified ← verifyRow C operationId requestedPayloadSha256 row
    match verified with
    | none => pure none
    | some v => consumeVerified v approvalId store row

/-- The digest of the requested payload, in the context the agent runs in. -/
def requestedPayload (C : Crypto) (operationPayload : Json) : HostProg PyStr := do
  let requestedPayloadSha256 ← Prog.ofExcept (validateOperationPayload C operationPayload)
  requireMatchingRuntimeContext operationPayload
  pure requestedPayloadSha256

/-- `_consume_operation_approval`. -/
def consumeOperationApproval (C : Crypto) (approvalId operationId operationPayload : Json) :
    HostProg (Option Members) := do
  let requested ← noneOnValueError (requestedPayload C operationPayload)
  match requested with
  | none => pure (some runtimeContextBlocked)
  | some requestedPayloadSha256 =>
    withLock .decisions (consumeLocked C approvalId operationId requestedPayloadSha256)

end SddGov.Autonomy
