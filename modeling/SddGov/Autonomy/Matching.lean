import SddGov.Autonomy.Escalation
import SddGov.Autonomy.ProductApproval
import SddGov.Effect.Expand

/-!
# Matching a recorded decision

`_plain_l2_approval_matches` and `_l2_approval_matches` compare a row of the
decision store with the scope that is asked for and with the repository as it
is now. `evaluateEscalation` is written over calls of them; `evaluateReuse` is
the same program with the two in their places.
-/

namespace SddGov.Python

mutual
/-- `==` of two values that `json.loads` returned: its one `NaN` object is itself wherever it
stands in a container. -/
def loadedEq : Json → Json → Bool
  | .arr xs, .arr ys => loadedEqList xs ys
  | .obj a, .obj b => a.length == b.length && loadedEqMembers a b
  | .float .nan, .float .nan => true
  | a, b => pyEq a b

def loadedEqList : List Json → List Json → Bool
  | [], [] => true
  | x :: xs, y :: ys => loadedEq x y && loadedEqList xs ys
  | _, _ => false

def loadedEqMembers : List (PyStr × Json) → List (PyStr × Json) → Bool
  | [], _ => true
  | (k, v) :: rest, b =>
    (match lookup k b with
      | some w => loadedEq v w
      | none => false) && loadedEqMembers rest b
end

end SddGov.Python

namespace SddGov.Autonomy

open SddGov.Effect SddGov.Python SddGov.Governance

/-! ## Plain-language decisions -/

def plainDecisionFields : List String :=
  ["decision_id", "risk_level", "summary", "scope", "basis", "status", "recorded_at",
    "reopen_condition",
    "approval_mode", "profile", "approved_by", "request_path", "request_sha256"]

/-- The row is a plain-language decision for this scope. -/
def isPlainRow (decision : Members) (scope : Json) : Bool :=
  keysEq decision (plainDecisionFields.map lit)
    && pyEq (get (lit "risk_level") decision) (.str (lit "L2"))
    && pyEq (get (lit "status") decision) (.str (lit "approved"))
    && isPlainDecision decision
    && pyEq (get (lit "profile") decision) (.str (lit "team-standard"))
    && pyEq (get (lit "approved_by") decision) (.str (lit "project_owner"))
    && pyEq (get (lit "reopen_condition") decision) (.str (lit "scope_or_assumptions_change"))
    && (text? scope).isSome && pyEq (get (lit "scope") decision) scope

/-- The package in the bytes of a request that was checked. -/
def recordedPackage (C : Crypto) (raw : Bytes) : Except Exn Members := do
  let request ← loadUniqueJsonBytes raw "plain-language product decision request"
  let input ← item request "decision_package"
  buildPackage C input

/-- The part of `_plain_l2_request_binding` for an incoming package. -/
def checkIncoming (C : Crypto) (raw : Bytes) : Json → Except Exn Unit
  | .null => .ok ()
  | incoming => do
    let package ← recordedPackage C raw
    match buildPackage C incoming with
    | .error e =>
      .error (if isPackageError e then
        valueError "incoming plain-language Decision Package is invalid" else e)
    | .ok built =>
      require (loadedEq (.obj built) (.obj package))
        "incoming plain-language Decision Package differs from the approved request"

/-- `_plain_l2_request_binding`. -/
def plainRequestBinding (C : Crypto) (requestPath : PyStr) (decisionId scope : Json)
    (selectedLabel : PyStr) (decisionPackage : Json) : HostProg PyStr := do
  Prog.ofExcept (require (!requestPath.isEmpty && !requestPath.contains (cp 0)
    && isRelativePath requestPath)
    "plain-language product decision request must be repository-relative")
  let raw ← readRepositoryRegularFile requestPath
  Prog.ofExcept (checkPlainRequest C raw decisionId scope selectedLabel)
  Prog.ofExcept (checkIncoming C raw decisionPackage)
  pure (C.sha256 raw)

/-- The profile is still the one of plain-language decisions, and the row says when it was made. -/
def checkPlainProfile (decision : Members) : HostProg Bool := do
  let profile ← projectProfile
  if profile ≠ lit "team-standard" then pure false
  else do
    let _ ← Prog.ofExcept (parseTime (get (lit "recorded_at") decision) "recorded_at")
    pure true

/-- `except (AttributeError, OSError, ValueError)`. -/
def isBindingError : Exn → Bool
  | .attribute => true
  | .os _ => true
  | .value _ => true
  | _ => false

/-- The path and the digest of the request a row was recorded for. -/
def recordedRequest? (decision : Members) : Option (PyStr × PyStr) :=
  match get (lit "request_path") decision, get (lit "request_sha256") decision with
  | .str path, .str sha256 => if isSha256 sha256 then some (path, sha256) else none
  | _, _ => none

/-- `_plain_l2_approval_matches`. -/
def plainL2ApprovalMatches (C : Crypto) (decision : Members) (scope decisionPackage : Json) :
    HostProg Bool :=
  if !isPlainRow decision scope then pure false
  else do
    let profiled ← noneOnValueError (checkPlainProfile decision)
    if profiled ≠ some true then pure false
    else
      match selectedLabel? (get (lit "basis") decision), recordedRequest? decision with
      | some label, some (path, sha256) =>
        (plainRequestBinding C path (get (lit "decision_id") decision)
          (get (lit "scope") decision) label
            decisionPackage).handle
          (fun current => pure (current == sha256))
          fun e => if isBindingError e then pure false else .raise e
      | _, _ => pure false

/-! ## Signed decisions -/

/-- The fields of the row that have to be those of the receipt. -/
def signedFields (receipt : ProductReceipt) (receiptSha256 : PyStr) : Members :=
  [(lit "decision_id", .str receipt.decisionId), (lit "summary", .str receipt.summary),
    (lit "scope", .str receipt.scope), (lit "reopen_condition", .str receipt.reopenCondition),
    (lit "assumptions_sha256", .str receipt.assumptionsSha256),
      (lit "assumptions", receipt.assumptions),
    (lit "approved_by", .str receipt.approvedBy), (lit "expires_at", .str receipt.expiresAt),
    (lit "approval_nonce", .str receipt.nonce), (lit "receipt_sha256", .str receiptSha256),
    (lit "signature_algorithm", .str (lit "ed25519"))]

/-- `_l2_approval_matches_verified`. -/
def l2ApprovalMatchesVerified (decision : Members) (scope : Json) (receipt : ProductReceipt)
    (receiptSha256 : PyStr) : Bool :=
  pyEq (get (lit "risk_level") decision) (.str (lit "L2"))
    && pyEq (get (lit "status") decision) (.str (lit "approved"))
    && (text? scope).isSome
    && (signedFields receipt receiptSha256).all (fun field => pyEq (get field.1 decision) field.2)
    && pyEq (.str receipt.scope) scope

/-- `_l2_approval_matches`. -/
def l2ApprovalMatches (C : Crypto) (decision : Members) (scope : Json) : HostProg Bool :=
  if isPlainDecision decision then plainL2ApprovalMatches C decision scope .null
  else do
    let verified ← noneOnValueError
      (verifyProductEnvelope C (get (lit "approval_envelope") decision))
    match verified with
    | none => pure false
    | some (receipt, receiptSha256) =>
        pure (l2ApprovalMatchesVerified decision scope receipt receiptSha256)

/-! ## In the place of the calls -/

/-- A program whose exception is part of its answer. -/
def answering {α : Type} (p : HostProg α) : HostProg (Except Exn α) :=
  p.handle (fun a => .ret (.ok a)) fun e => .ret (.error e)

/-- The programs behind the two calls. -/
def matchers (C : Crypto) : (o : HostOp) → Option (HostProg (hostSig.Resp o))
  | .plainDecisionMatches (.obj decision) scope decisionPackage =>
    some (answering (plainL2ApprovalMatches C decision scope decisionPackage))
  | .decisionMatches (.obj decision) scope => some (answering (l2ApprovalMatches C decision scope))
  | _ => none

/-- `evaluate_escalation` with the comparison of a recorded decision and the repository. -/
def evaluateReuse (C : Crypto) (m : Members) : HostProg Verdict :=
  (evaluateEscalation C m).expand (matchers C)

end SddGov.Autonomy
