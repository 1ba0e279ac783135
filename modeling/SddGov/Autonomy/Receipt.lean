import SddGov.Autonomy.Policy
import SddGov.Broker.Request
import SddGov.Governance.Host

/-!
# Signed receipts

An envelope carries a receipt and its signature. `verifyOperationEnvelope` and
`verifyResolutionEnvelope` are the two verifications the escalation rests on:
the contract of the receipt, its validity window against the clock, and the
signature of an active trusted approver over the canonical bytes of the receipt.
A receipt that passes its contract is a structure, so that its fields are text
from there on.
-/

namespace SddGov.Autonomy

open SddGov.Effect SddGov.Python SddGov.Governance
open SddGov.Broker (strWith)

/-! ## Times -/

/-- `_parse_time(value, field)`. -/
def parseTime (value : Json) (field : String) : Except Exn Instant :=
  match value with
  | .str s =>
    match fromisoformat (replaceZulu s) with
    | none =>
        .error (.value (lit "approval receipt " ++ lit field
        ++ lit " must be an RFC3339 timestamp"))
    | some p =>
      match p.offset with
      | none =>
          .error (.value (lit "approval receipt " ++ lit field ++ lit " must include a timezone"))
      | some offset =>
        match Instant.ofInt? (p.micros offset) with
        | none => .error .overflow
        | some t => .ok t
  | _ => .error
      (.value (lit "approval receipt " ++ lit field ++ lit " must be an RFC3339 timestamp"))

/-- `t + delta`. -/
def addTime (t : Instant) (delta : TimeDelta) : Except Exn Instant :=
  match t.add? delta with
  | none => .error .overflow
  | some t' => .ok t'

/-! ## Trusted approvers -/

/-- One record of the trusted approver store. -/
def approverRow? (seen : List PyStr) (row : Json) : Except Exn PyStr :=
  match row with
  | .obj m =>
    if !keysEq m (["approver_id", "algorithm", "public_key", "status"].map lit) then
      .error (valueError "trusted approver record has an invalid contract")
    else
      match text? (get (lit "approver_id") m) with
      | none => .error (valueError "trusted approver record has an invalid contract")
      | some approverId => do
        require (pyEq (get (lit "algorithm") m) (.str (lit "ed25519")))
          "trusted approver record has an invalid contract"
        let known ← memberOfSet (get (lit "status") m) [lit "active", lit "revoked"]
        require (known && strWith (fun _ => true) (get (lit "public_key") m))
          "trusted approver record has an invalid contract"
        require (!seen.contains approverId) "trusted approver store contains duplicate approver_id"
        pure approverId
  | _ => .error (valueError "trusted approver record has an invalid contract")

/-- The records of the store, each with an id of its own. -/
def checkApprovers : List PyStr → List Json → Except Exn Unit
  | _, [] => .ok ()
  | seen, row :: rest => do
    let approverId ← approverRow? seen row
    checkApprovers (approverId :: seen) rest

/-- The record names this approver and is active. -/
def isActiveApprover (approverId : PyStr) : Json → Bool
  | .obj m =>
    pyEq (get (lit "approver_id") m) (.str approverId)
      && pyEq (get (lit "status") m) (.str (lit "active"))
  | _ => false

/-- The public key of a record. -/
def publicKeyOf : Json → Except Exn PyStr
  | .obj m =>
    match get (lit "public_key") m with
    | .str key => .ok key
    | _ => .error .type
  | _ => .error .type

/-- `_trusted_approver` on the content of the store: the public key of the approver. -/
def trustedApproverIn (data : Members) (approverId : PyStr) : Except Exn PyStr :=
  if !keysEq data [lit "schema_version", lit "approvers"]
      || !pyEq (get (lit "schema_version") data) (.str (lit "1.0")) then
    .error (valueError "trusted approver store is missing or invalid")
  else
    match get (lit "approvers") data with
    | .arr rows => do
      checkApprovers [] rows
      match rows.filter (isActiveApprover approverId) with
      | [approver] => publicKeyOf approver
      | _ => .error (valueError "approval receipt signer is not a unique active trusted approver")
    | _ => .error (valueError "trusted approver store is missing or invalid")

/-- `_trusted_approver`. -/
def trustedApprover (approverId : PyStr) : HostProg PyStr := do
  let data ← raising (ask (.loadControlPlane .trustedApprovers))
  Prog.ofExcept (trustedApproverIn data approverId)

/-! ## Envelopes -/

/-- The receipt and the signature of an envelope of the common contract. -/
def envelope? : Json → Option (Members × PyStr)
  | .obj m =>
    if keysEq m (["schema_version", "algorithm", "receipt", "signature"].map lit)
        && pyEq (get (lit "schema_version") m) (.str (lit "1.0"))
        && pyEq (get (lit "algorithm") m) (.str (lit "ed25519")) then
      match get (lit "receipt") m, get (lit "signature") m with
      | .obj receipt, .str signature => some (receipt, signature)
      | _, _ => none
    else none
  | _ => none

/-- The signature of the canonical receipt under a base64 key; the digest of the receipt. -/
def checkSignature (C : Crypto) (label publicKey signature : PyStr) (receipt : Members) :
    Except Exn PyStr :=
  match b64decode publicKey, b64decode signature, canonicalBytes (.obj receipt) with
  | some key, some sig, some message =>
    if key.length = 32 ∧ C.verifies key sig message = true then .ok (C.sha256 message)
    else .error (.value (label ++ lit " signature verification failed"))
  | _, _, _ => .error (.value (label ++ lit " signature verification failed"))

/-! ## Operation approvals -/

/-- A receipt whose fields are all there. -/
structure OperationReceipt where
  /-- the receipt as it is signed -/
  members : Members
  approvalId : PyStr
  operationId : PyStr
  operationPayload : Json
  summary : PyStr
  scope : PyStr
  approvedBy : PyStr
  issuedAt : PyStr
  expiresAt : PyStr
  nonce : PyStr

/-- A text field of a receipt. -/
def receiptText (m : Members) (field : String) : Option PyStr := text? (get (lit field) m)

def operationReceiptFields : List PyStr :=
  ["approval_id", "operation_id", "operation_payload", "summary", "scope", "approved_by",
    "issued_at", "expires_at", "nonce"].map lit

/-- The contract of an operation receipt. -/
def operationReceipt? (m : Members) : Option OperationReceipt :=
  if keysEq m operationReceiptFields then do
    let approvalId ← receiptText m "approval_id"
    let operationId ← receiptText m "operation_id"
    let summary ← receiptText m "summary"
    let scope ← receiptText m "scope"
    let approvedBy ← receiptText m "approved_by"
    let issuedAt ← receiptText m "issued_at"
    let expiresAt ← receiptText m "expires_at"
    let nonce ← receiptText m "nonce"
    pure ⟨m, approvalId, operationId, get (lit "operation_payload") m, summary, scope, approvedBy,
      issuedAt, expiresAt, nonce⟩
  else none

/-- The scope inside the signed payload. -/
def payloadScope : Json → Json
  | .obj m => get (lit "scope") m
  | _ => .null

/-- Everything `_verify_operation_envelope` checks before it looks at the clock: the receipt,
its signature, the digest of its payload and the two ends of its window. -/
def readOperationEnvelope (C : Crypto) (envelope : Json) :
    Except Exn (OperationReceipt × PyStr × PyStr × Instant × Instant) :=
  match envelope? envelope with
  | none => .error (valueError "signed approval receipt has an invalid contract")
  | some (m, signature) =>
    match operationReceipt? m with
    | none => .error (valueError "approval receipt payload has an invalid contract")
    | some receipt => do
      let operationPayloadSha256 ← validateOperationPayload C receipt.operationPayload
      require (pyEq (.str receipt.scope) (payloadScope receipt.operationPayload))
        "approval receipt scope does not match operation payload scope"
      require (12 ≤ receipt.nonce.length)
        "approval receipt nonce must contain at least 12 characters"
      let issuedAt ← parseTime (.str receipt.issuedAt) "issued_at"
      let expiresAt ← parseTime (.str receipt.expiresAt) "expires_at"
      pure (receipt, signature, operationPayloadSha256, issuedAt, expiresAt)

/-- The validity window of an approval. -/
def checkWindow (now issuedAt expiresAt : Instant) : Except Exn Unit := do
  let latest ← addTime now (minutes 5)
  require (issuedAt.val ≤ latest.val) "approval receipt issued_at is in the future"
  require (now.val < expiresAt.val && issuedAt.val < expiresAt.val)
    "approval receipt is expired or has an invalid validity window"
  require ((expiresAt.val : Int) - issuedAt.val ≤ hours 24)
    "approval receipt validity exceeds 24 hours"

/-- A receipt that passed, with its digest and the digest of its payload. -/
structure VerifiedOperation where
  receipt : OperationReceipt
  receiptSha256 : PyStr
  operationPayloadSha256 : PyStr

/-- `_verify_operation_envelope`. -/
def verifyOperationEnvelope (C : Crypto) (envelope : Json) : HostProg VerifiedOperation := do
  let (receipt, signature, operationPayloadSha256, issuedAt, expiresAt) ←
    Prog.ofExcept (readOperationEnvelope C envelope)
  let current ← ask .now
  Prog.ofExcept (checkWindow current issuedAt expiresAt)
  let publicKey ← trustedApprover receipt.approvedBy
  let receiptSha256 ← Prog.ofExcept
    (checkSignature C (lit "approval receipt") publicKey signature receipt.members)
  pure ⟨receipt, receiptSha256, operationPayloadSha256⟩

/-! ## Resolutions of external actions -/

/-- The receipt of a completed or cancelled action. -/
structure ResolutionReceipt where
  members : Members
  resolutionId : PyStr
  actionId : PyStr
  actionClass : PyStr
  owner : PyStr
  scope : PyStr
  requestSha256 : PyStr
  status : PyStr
  evidenceSha256 : PyStr
  resolvedAt : PyStr
  expiresAt : PyStr
  nonce : PyStr

def resolutionReceiptFields : List PyStr :=
  ["resolution_id", "action_id", "action_class", "owner", "scope", "request_sha256", "status",
    "evidence_sha256", "resolved_at", "expires_at", "nonce"].map lit

/-- The contract of a resolution receipt. -/
def resolutionReceipt? (m : Members) : Option ResolutionReceipt :=
  if keysEq m resolutionReceiptFields then do
    let resolutionId ← receiptText m "resolution_id"
    let actionId ← receiptText m "action_id"
    let actionClass ← receiptText m "action_class"
    let owner ← receiptText m "owner"
    let scope ← receiptText m "scope"
    let requestSha256 ← receiptText m "request_sha256"
    let status ← receiptText m "status"
    let evidenceSha256 ← receiptText m "evidence_sha256"
    let resolvedAt ← receiptText m "resolved_at"
    let expiresAt ← receiptText m "expires_at"
    let nonce ← receiptText m "nonce"
    pure ⟨m, resolutionId, actionId, actionClass, owner, scope, requestSha256, status,
      evidenceSha256, resolvedAt, expiresAt, nonce⟩
  else none

/-- Everything the verification checks before it looks at the clock. -/
def readResolutionEnvelope (envelope : Json) :
    Except Exn (ResolutionReceipt × PyStr × Instant × Instant) :=
  match envelope? envelope with
  | none => .error (valueError "external action resolution has an invalid contract")
  | some (m, signature) =>
    match resolutionReceipt? m with
    | none => .error (valueError "external action resolution payload has an invalid contract")
    | some receipt => do
      require (humanCategories.contains receipt.actionClass)
        "external action resolution class is invalid"
      require ([lit "completed", lit "cancelled"].contains receipt.status)
        "external action resolution status is invalid"
      require (isSha256 receipt.requestSha256)
        "external action resolution request_sha256 is invalid"
      require (isSha256 receipt.evidenceSha256)
        "external action resolution evidence_sha256 is invalid"
      require (12 ≤ receipt.nonce.length)
        "external action resolution nonce must contain at least 12 characters"
      let resolvedAt ← parseTime (.str receipt.resolvedAt) "resolved_at"
      let expiresAt ← parseTime (.str receipt.expiresAt) "expires_at"
      pure (receipt, signature, resolvedAt, expiresAt)

/-- The validity window of a resolution. -/
def checkResolutionWindow (requireFresh : Bool) (current resolvedAt expiresAt : Instant) :
    Except Exn Unit := do
  let latest ← addTime current (minutes 5)
  require (resolvedAt.val ≤ latest.val) "external action resolution resolved_at is in the future"
  require (resolvedAt.val < expiresAt.val) "external action resolution is expired or invalid"
  require (!requireFresh || current.val < expiresAt.val)
    "external action resolution is expired or invalid"
  require ((expiresAt.val : Int) - resolvedAt.val ≤ days 7)
    "external action resolution validity exceeds seven days"

/-- `_verify_external_action_resolution_envelope`: the receipt and its digest. -/
def verifyResolutionEnvelope (C : Crypto) (envelope : Json) (requireFresh : Bool) :
    HostProg (ResolutionReceipt × PyStr) := do
  let (receipt, signature, resolvedAt, expiresAt) ← Prog.ofExcept (readResolutionEnvelope envelope)
  let current ← ask .now
  Prog.ofExcept (checkResolutionWindow requireFresh current resolvedAt expiresAt)
  let publicKey ← trustedApprover receipt.owner
  let receiptSha256 ← Prog.ofExcept
    (checkSignature C (lit "external action resolution") publicKey signature receipt.members)
  pure (receipt, receiptSha256)

end SddGov.Autonomy
