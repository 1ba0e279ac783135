import SddGov.Governance.ExternalActions

/-!
# Resolving an external action

`resolve_external_action` ends one pending action by a receipt that was
verified before. The action is looked up again under the lock, and all of its
identity is compared, so a receipt ends the action it was signed for or none.
-/

namespace SddGov.Governance

open SddGov.Effect SddGov.Python

/-- The arguments of a call. -/
structure Resolution where
  actionId : Json
  actionClass : Json
  owner : Json
  scope : Json
  requestSha256 : Json
  status : Json
  resolvedAt : Json
  receiptSha256 : Json
  evidenceSha256 : Json
  envelope : Json

/-- The arguments that are checked field by field. -/
def Resolution.fields (r : Resolution) : Members :=
  [(lit "action_id", r.actionId), (lit "action_class", r.actionClass), (lit "owner", r.owner),
    (lit "scope", r.scope), (lit "resolved_at", r.resolvedAt),
    (lit "request_sha256", r.requestSha256), (lit "resolution_receipt_sha256", r.receiptSha256),
    (lit "resolution_evidence_sha256", r.evidenceSha256)]

/-- The named fields are digests. -/
def requireDigests (before after : String) (row : Members) : List String → Except Exn Unit
  | [] => .ok ()
  | field :: rest =>
    if isHexDigest (get (lit field) row) then requireDigests before after row rest
    else .error (fieldError before field after)

/-- The checks on the arguments. -/
def checkResolution (r : Resolution) : Except Exn Unit := do
  let known ← memberOfSet r.status [lit "completed", lit "cancelled"]
  require known "external action resolution status must be completed or cancelled"
  requireTexts "external action resolution " " is required" r.fields
    ["action_id", "action_class", "owner", "scope", "resolved_at"]
  requireDigests "external action resolution " " is invalid" r.fields
    ["request_sha256", "resolution_receipt_sha256", "resolution_evidence_sha256"]
  require (isObject r.envelope) "external action resolution envelope is invalid"

/-- The one row of this action, where it has the identity the receipt was signed for. -/
def exactAction (C : Crypto) (r : Resolution) (rows : List Json) : Except Exn Members := do
  validateRows C rows
  match rows.filter (isAction r.actionId) with
  | [.obj row] =>
    if [("action_class", r.actionClass), ("owner", r.owner), ("scope", r.scope),
        ("request_sha256", r.requestSha256)].all fun f => pyEq (get (lit f.1) row) f.2 then .ok row
    else .error (valueError "external action resolution identity does not match pending action")
  | _ => .error (valueError "external action resolution requires one exact action")

/-- `datetime.fromisoformat(value.replace("Z", "+00:00"))`. -/
def timestamp? : Json → Option Parsed
  | .str s => fromisoformat (replaceZulu s)
  | _ => none

/-- The resolution lies in the lifetime of the action. -/
def checkLifetime (r : Resolution) (row : Members) : Except Exn Unit :=
  match timestamp? (get (lit "expires_at") row), timestamp? r.resolvedAt,
      timestamp? (get (lit "created_at") row) with
  | some expiry, some resolution, some created =>
    match expiry.offset, resolution.offset, created.offset with
    | some o, some o', some o'' =>
      require (created.micros o'' ≤ resolution.micros o' ∧ resolution.micros o' ≤ expiry.micros o)
        "external action resolution is outside the action lifetime"
    | _, _, _ => .error (valueError "external action resolution timestamp requires a timezone")
  | _, _, _ => .error (valueError "external action resolution timestamp is invalid")

/-- The row as it ends, with what it ends by. -/
def endedRow (status resolvedAt receiptSha256 evidenceSha256 envelope : Json) (row : Members) :
    Members :=
  setMember (lit "resolution_envelope") envelope
    (setMember (lit "resolution_evidence_sha256") evidenceSha256
      (setMember (lit "resolution_receipt_sha256") receiptSha256
        (setMember (lit "resolved_at") resolvedAt (setMember (lit "status") status row))))

/-- The row once it is resolved. -/
def resolvedRow (r : Resolution) : Members → Members :=
  endedRow r.status r.resolvedAt r.receiptSha256 r.evidenceSha256 r.envelope

/-- The row with the mark of whether this call has changed it. -/
def withStateChanged (row : Members) (changed : Bool) : Members :=
  setMember (lit "state_changed") (.bool changed) row

/-- A row that has this status already: the receipt has to be the same. -/
def reapply (r : Resolution) (row : Members) : Except Exn Members :=
  if pyEq (get (lit "resolution_receipt_sha256") row) r.receiptSha256 then
    .ok (withStateChanged row false)
  else .error (valueError "external action was resolved by a different receipt")

/-- A row that still waits, and is in its lifetime at the time of the resolution. -/
def checkPending (r : Resolution) (row : Members) : Except Exn Unit := do
  require (pyEq (get (lit "status") row) (.str (lit "pending"))) "external action is not pending"
  checkLifetime r row

/-- The part of `resolve_external_action` that runs under the lock. -/
def resolveUnlocked (C : Crypto) (r : Resolution) : HostProg Members := do
  let data ← readJson .externalActions (actionStore [])
  let rows ← Prog.ofExcept (externalActionRows data)
  let row ← Prog.ofExcept (exactAction C r rows)
  if pyEq (get (lit "status") row) r.status then Prog.ofExcept (reapply r row)
  else do
    Prog.ofExcept (checkPending r row)
    writeJson .externalActions
      (actionStore (rows.map fun x => if isAction r.actionId x then
        .obj (resolvedRow r row) else x))
    emitEvent (lit "external_action_" ++ strOf r.status) (strOf (get (lit "risk_level") row))
      (.obj [(lit "action_id", r.actionId), (lit "action_class", r.actionClass)])
    pure (withStateChanged (resolvedRow r row) true)

/-- `resolve_external_action`. -/
def resolveExternalAction (C : Crypto) (r : Resolution) : HostProg Members := do
  Prog.ofExcept (checkResolution r)
  withLock .externalActions (resolveUnlocked C r)

end SddGov.Governance
