import SddGov.Autonomy.PlainDecision

/-!
# Product approvals

A signed L2 product decision: `_verify_product_envelope` checks the contract of
the receipt, the files its assumptions name, its validity window, the approver
and the trust domain of the approver, and the signature;
`import_product_approval` records it.
-/

namespace SddGov.Autonomy

open SddGov.Effect SddGov.Python SddGov.Governance
open SddGov.Broker (strWith)

/-! ## Assumptions -/

/-- The path and the digest of one assumption. -/
def assumption? : Json → Option (PyStr × PyStr)
  | .obj m =>
    if keysEq m [lit "path", lit "sha256"] then
      match text? (get (lit "path") m), get (lit "sha256") m with
      | some path, .str sha256 => if isSha256 sha256 then some (path, sha256) else none
      | _, _ => none
    else none
  | _ => none

/-- The error of one assumption. -/
def assumptionError (index : Nat) (what : String) : Exn :=
  .value (lit "product approval assumptions[" ++ natText index ++ lit "]" ++ lit what)

/-- The loop over the assumptions: each file is read and has the digest that was signed. -/
def verifyAssumptions (C : Crypto) : Nat → List PyStr → List Json → HostProg (List Json)
  | _, _, [] => pure []
  | index, seen, row :: rest =>
    match assumption? row with
    | none => .raise (assumptionError index " is invalid")
    | some (path, sha256) =>
      if !isRelativePath path || seen.contains path then
        .raise (assumptionError index " path is unsafe")
      else do
        let raw ← raising (ask (.readSnapshot path))
        Prog.ofExcept (require (C.sha256 raw == sha256)
          "product approval assumption artifact changed")
        let others ← verifyAssumptions C (index + 1) (path :: seen) rest
        pure (.obj [(lit "path", .str path), (lit "sha256", .str sha256)] :: others)

/-- The digest of the normalized assumptions. -/
def assumptionsDigest (C : Crypto) (normalized : List Json) : Except Exn PyStr :=
  match C.digest (.arr normalized) with
  | none => .error (valueError "UnicodeEncodeError")
  | some digest => .ok digest

/-- `_verified_assumptions_digest`, in a snapshot of its own. -/
def verifiedAssumptionsDigest (C : Crypto) : Json → HostProg PyStr
  | .arr (row :: rest) => withSnapshot .repository (do
      let normalized ← verifyAssumptions C 0 [] (row :: rest)
      Prog.ofExcept (assumptionsDigest C normalized))
  | _ => .raise (valueError "product approval assumptions must be a non-empty array")

/-! ## The trust domain -/

def bindingTexts : List String :=
    ["approver_id", "repository_id", "repository_root", "trust_domain"]

/-- One record of the domain store: the approver it is about. -/
def bindingRow? (seen : List PyStr) (row : Json) : Except Exn PyStr :=
  let invalid := valueError "trusted approver domain record has an invalid contract"
  match row with
  | .obj m =>
    if !keysEq m ((bindingTexts ++ ["status"]).map lit) || !bindingTexts.all (hasText m ·) then
      .error invalid
    else do
      let known ← memberOfSet (get (lit "status") m) [lit "active", lit "revoked"]
      match text? (get (lit "approver_id") m) with
      | none => .error invalid
      | some approverId => if !known || seen.contains approverId then .error invalid else
          .ok approverId
  | _ => .error invalid

/-- The records of the store, each about an approver of its own. -/
def checkBindings : List PyStr → List Json → Except Exn Unit
  | _, [] => .ok ()
  | seen, row :: rest => do
    let approverId ← bindingRow? seen row
    checkBindings (approverId :: seen) rest

/-- The active binding of the approver: the root and the repository it names. -/
def activeBinding (data : Members) (approverId : PyStr) : Except Exn (PyStr × Json) :=
  if !keysEq data [lit "schema_version", lit "bindings"]
      || !pyEq (get (lit "schema_version") data) (.str (lit "1.0")) then
    .error (valueError "trusted approver domain store is missing or invalid")
  else
    match get (lit "bindings") data with
    | .arr rows => do
      checkBindings [] rows
      match rows.filter (isActiveApprover approverId) with
      | [.obj binding] =>
        match text? (get (lit "repository_root") binding) with
        | none => .error (valueError "trusted approver domain record has an invalid contract")
        | some root => .ok (root, get (lit "repository_id") binding)
      | _ => .error (valueError "trusted approver has no unique active trust-domain binding")
    | _ => .error (valueError "trusted approver domain store is missing or invalid")

/-- `_trusted_approver_domain`, whose result is not used. -/
def trustedApproverDomain (approverId : PyStr) : HostProg Unit := do
  let data ← raising (ask (.loadControlPlane .approverDomains))
  let (root, repositoryId) ← Prog.ofExcept (activeBinding data approverId)
  let bound ← raising (ask (.isBoundRoot root))
  Prog.ofExcept (require bound "trusted approver is not authorized for this repository root")
  let identity ← raising (ask .repositoryIdentity)
  Prog.ofExcept (require (pyEq repositoryId (.str identity))
    "trusted approver is not authorized for this repository")

/-! ## Envelopes -/

/-- A product receipt whose fields are all there. -/
structure ProductReceipt where
  /-- the receipt as it is signed -/
  members : Members
  decisionId : PyStr
  summary : PyStr
  scope : PyStr
  assumptions : Json
  assumptionsSha256 : PyStr
  reopenCondition : PyStr
  approvedBy : PyStr
  issuedAt : PyStr
  expiresAt : PyStr
  nonce : PyStr

def productReceiptFields : List PyStr :=
  ["decision_id", "summary", "scope", "assumptions", "assumptions_sha256", "reopen_condition",
    "approved_by", "issued_at", "expires_at", "nonce"].map lit

/-- The contract of a product receipt. -/
def productReceipt? (m : Members) : Option ProductReceipt :=
  if keysEq m productReceiptFields then do
    let decisionId ← receiptText m "decision_id"
    let summary ← receiptText m "summary"
    let scope ← receiptText m "scope"
    let assumptionsSha256 ← receiptText m "assumptions_sha256"
    let reopenCondition ← receiptText m "reopen_condition"
    let approvedBy ← receiptText m "approved_by"
    let issuedAt ← receiptText m "issued_at"
    let expiresAt ← receiptText m "expires_at"
    let nonce ← receiptText m "nonce"
    pure ⟨m, decisionId, summary, scope, get (lit "assumptions") m, assumptionsSha256,
      reopenCondition,
      approvedBy, issuedAt, expiresAt, nonce⟩
  else none

/-- The receipt and its signature, before any file is read. -/
def readProductEnvelope (envelope : Json) : Except Exn (ProductReceipt × PyStr) :=
  match envelope? envelope with
  | none => .error (valueError "signed product approval has an invalid contract")
  | some (m, signature) =>
    match productReceipt? m with
    | none => .error (valueError "product approval receipt payload has an invalid contract")
    | some receipt => do
      require (receipt.reopenCondition == lit "scope_or_assumptions_change")
        "product approval reopen_condition is unsupported; use scope_or_assumptions_change"
      require (isSha256 receipt.assumptionsSha256) "product approval assumptions_sha256 is invalid"
      pure (receipt, signature)

/-- The nonce and the two ends of the window. -/
def productWindow (receipt : ProductReceipt) : Except Exn (Instant × Instant) := do
  require (12 ≤ receipt.nonce.length) "product approval nonce must contain at least 12 characters"
  let issuedAt ← parseTime (.str receipt.issuedAt) "issued_at"
  let expiresAt ← parseTime (.str receipt.expiresAt) "expires_at"
  pure (issuedAt, expiresAt)

/-- The validity window of a product approval. -/
def checkProductWindow (now issuedAt expiresAt : Instant) : Except Exn Unit := do
  let latest ← addTime now (minutes 5)
  require (issuedAt.val ≤ latest.val) "product approval issued_at is in the future"
  require (now.val < expiresAt.val && issuedAt.val < expiresAt.val)
    "product approval is expired or has an invalid validity window"
  require ((expiresAt.val : Int) - issuedAt.val ≤ days 366)
    "product approval validity exceeds 366 days"

/-- `_verify_product_envelope`: the receipt and its digest. -/
def verifyProductEnvelope (C : Crypto) (envelope : Json) : HostProg (ProductReceipt × PyStr) := do
  let (receipt, signature) ← Prog.ofExcept (readProductEnvelope envelope)
  let digest ← verifiedAssumptionsDigest C receipt.assumptions
  Prog.ofExcept (require (digest == receipt.assumptionsSha256)
    "product approval assumptions digest does not match artifacts")
  let (issuedAt, expiresAt) ← Prog.ofExcept (productWindow receipt)
  let current ← ask .now
  Prog.ofExcept (checkProductWindow current issuedAt expiresAt)
  let publicKey ← trustedApprover receipt.approvedBy
  trustedApproverDomain receipt.approvedBy
  let receiptSha256 ← Prog.ofExcept
    (checkSignature C (lit "product approval") publicKey signature receipt.members)
  pure (receipt, receiptSha256)

/-! ## Import -/

/-- The envelope in the file the caller names. -/
def readProductFile (path : PyStr) : HostProg Json := do
  let name ← raising (ask (.canonicalName path))
  Prog.ofExcept (require (!name.isEmpty && name != lit "." && name != lit "..")
    "signed product approval path is unsafe")
  withSnapshot (.parentOf path) (do
    let raw ← raising (ask (.readSnapshot name))
    Prog.ofExcept (loadUniqueJsonBytes raw "signed product approval envelope"))

/-- The row of an imported product approval. -/
def productRow (receipt : ProductReceipt) (receiptSha256 : PyStr) (envelope : Json)
    (recordedAt : Instant) : Members :=
  [(lit "decision_id", .str receipt.decisionId), (lit "risk_level", .str (lit "L2")),
    (lit "summary", .str receipt.summary), (lit "scope", .str receipt.scope),
    (lit "basis", .str (lit "verified owner-signed L2 product approval receipt")),
    (lit "status", .str (lit "approved")), (lit "recorded_at", .str (stamp recordedAt)),
    (lit "reopen_condition", .str receipt.reopenCondition),
    (lit "assumptions_sha256", .str receipt.assumptionsSha256),
      (lit "assumptions", receipt.assumptions),
    (lit "approved_by", .str receipt.approvedBy), (lit "expires_at", .str receipt.expiresAt),
    (lit "approval_nonce", .str receipt.nonce), (lit "receipt_sha256", .str receiptSha256),
    (lit "signature_algorithm", .str (lit "ed25519")), (lit "approval_envelope", envelope)]

/-- The decision or its nonce is in the store already. -/
def productImported (receipt : ProductReceipt) (store : DecisionStore) : Bool :=
  store.decisions.any fun row =>
    pyEq (get (lit "decision_id") row) (.str receipt.decisionId)
      || pyEq (get (lit "approval_nonce") row) (.str receipt.nonce)

/-- The part of the import that runs under the lock. -/
def recordProduct (receipt : ProductReceipt) (receiptSha256 : PyStr) (envelope : Json) :
    HostProg Unit := do
  let store ← decisionStore
  if productImported receipt store then
    .raise (valueError "product approval receipt or nonce was already imported")
  else do
    let recordedAt ← ask .now
    atomicJson .decisions
      (store.withRows (store.decisions ++ [productRow receipt receiptSha256 envelope recordedAt]))

/-- `import_product_approval`. -/
def importProductApproval (C : Crypto) (path : PyStr) : HostProg Members := do
  let envelope ← readProductFile path
  let (receipt, receiptSha256) ← verifyProductEnvelope C envelope
  withLock .decisions (recordProduct receipt receiptSha256 envelope)
  pure [(lit "decision_id", .str receipt.decisionId), (lit "approved_by", .str receipt.approvedBy),
    (lit "expires_at", .str receipt.expiresAt),
    (lit "assumptions_sha256", .str receipt.assumptionsSha256),
    (lit "receipt_sha256", .str receiptSha256),
      (lit "verification", .str (lit "SIGNATURE_VERIFIED"))]

end SddGov.Autonomy
