import SddGov.Governance.Host
import SddGov.Python.Crypto

/-!
# External actions

The queue of actions that wait for the owner. Every row is checked before any
of them is used, and the digest of a row binds it to one request, so an action
that is found again is the one that was asked for.
-/

namespace SddGov.Governance

open SddGov.Effect SddGov.Python

/-! ## Rows -/

/-- The fields of every row, sorted. -/
def externalActionBaseFields : List String :=
  ["action_class", "action_id", "authorization_scope", "created_at", "expires_at", "owner",
    "request_sha256", "risk_level", "scope", "status", "summary"]

def externalActionResolutionFields : List String :=
  ["resolved_at", "resolution_receipt_sha256", "resolution_evidence_sha256", "resolution_envelope"]

/-- `_external_action_request_sha256`. -/
def externalActionRequestSha256 (C : Crypto)
    (actionId summary risk owner actionClass scope : Json) : Except Exn PyStr :=
  match C.digest (.obj [(lit "action_id", actionId), (lit "summary", summary),
      (lit "risk_level", risk), (lit "owner", owner), (lit "action_class", actionClass),
      (lit "scope", scope)]) with
  | none => .error (valueError "UnicodeEncodeError")
  | some digest => .ok digest

/-- A `ValueError` about one field. -/
def fieldError (before field after : String) : Exn :=
  .value (lit before ++ lit field ++ lit after)

/-- The named fields are text that is not blank. -/
def requireTexts (before after : String) (row : Members) : List String → Except Exn Unit
  | [] => .ok ()
  | field :: rest =>
    if (text? (get (lit field) row)).isSome then requireTexts before after row rest
    else .error (fieldError before field after)

/-- An aware timestamp, in microseconds. -/
def awareMicros? (value : Json) : Option Int :=
  match value with
  | .str s =>
    match fromisoformat (replaceZulu s) with
    | some ⟨naive, some offset⟩ => some ((naive : Int) - offset)
    | _ => none
  | _ => none

/-- Created before it expires. -/
def validTimestamps (row : Members) : Bool :=
  match awareMicros? (get (lit "created_at") row), awareMicros? (get (lit "expires_at") row) with
  | some created, some expiry => created < expiry
  | _, _ => false

/-- `any(row.get(field) is not None for field in fields)`. -/
def anyPresent (row : Members) (fields : List String) : Bool :=
  fields.any fun field => match get (lit field) row with
    | .null => false
    | _ => true

/-- A lower-case hexadecimal digest. -/
def isHexDigest : Json → Bool
  | .str s => s.length == 64 && s.all fun c => (lit "0123456789abcdef").contains c
  | _ => false

/-- The proof a row of this status has to carry, or must not. -/
def checkResolutionFields (status : PyStr) (row : Members) : Except Exn Unit :=
  if status = lit "completed" ∨ status = lit "cancelled" then do
    require (externalActionResolutionFields.all fun f => hasKey (lit f) row)
      "terminal external action row requires resolution proof"
    require (text? (get (lit "resolved_at") row)).isSome
      "terminal external action row resolved_at is invalid"
    require (isHexDigest (get (lit "resolution_receipt_sha256") row))
      "terminal external action row resolution_receipt_sha256 is invalid"
    require (isHexDigest (get (lit "resolution_evidence_sha256") row))
      "terminal external action row resolution_evidence_sha256 is invalid"
    require (isObject (get (lit "resolution_envelope") row))
      "terminal external action row resolution_envelope is invalid"
  else if status = lit "pending" then
    require (!anyPresent row externalActionResolutionFields)
      "pending external action row cannot contain resolution proof"
  else do
    require (text? (get (lit "resolved_at") row)).isSome
      "expired external action row resolved_at is invalid"
    require (!anyPresent row (externalActionResolutionFields.drop 1))
      "expired external action row cannot contain signed resolution proof"

/-- `_validate_external_action_row`. -/
def validateExternalActionRow (C : Crypto) (value : Json) : Except Exn Unit :=
  match value with
  | .obj row => do
    match externalActionBaseFields.find? fun f => !hasKey (lit f) row with
    | some field => .error (fieldError "external action row " field " is required")
    | none => pure ()
    require (keysWithin row ((externalActionBaseFields ++ externalActionResolutionFields).map lit))
      "external action row has an invalid field contract"
    requireTexts "external action row " " is required" row
      ["action_id", "summary", "owner", "scope"]
    let risk ← memberOfSet (get (lit "risk_level") row) (["L1", "L2", "L3"].map lit)
    require risk "external action row risk_level is invalid"
    let actionClass ← memberOfSet (get (lit "action_class") row)
      [lit "operational_action", lit "necessary_uat"]
    require actionClass "external action row action_class is invalid"
    let status ← memberOfSet (get (lit "status") row)
      (["pending", "completed", "cancelled", "expired"].map lit)
    require status "external action row status is invalid"
    require (pyEq (get (lit "authorization_scope") row) (.str (lit "one concrete action only")))
      "external action row authorization_scope is invalid"
    require (validTimestamps row) "external action row timestamps are invalid"
    let expectedDigest ← externalActionRequestSha256 C (get (lit "action_id") row)
      (get (lit "summary") row) (get (lit "risk_level") row) (get (lit "owner") row)
      (get (lit "action_class") row) (get (lit "scope") row)
    require (pyEq (get (lit "request_sha256") row) (.str expectedDigest))
      "external action row request_sha256 is invalid"
    match get (lit "status") row with
    | .str s => checkResolutionFields s row
    | _ => .error .type
  | _ => .error (valueError "external action row has an invalid contract")

/-! ## The store -/

/-- The content of a new store with these rows. -/
def actionStore (actions : List Json) : Json :=
  .obj [(lit "schema_version", .str (lit "1.1")), (lit "actions", .arr actions)]

/-- `_load_external_action_store` on what was read: the rows. -/
def externalActionRows (data : Json) : Except Exn (List Json) :=
  if pyEq data (.obj [(lit "schema_version", .str (lit "1.0")), (lit "actions", .arr [])]) then
    .ok []
  else
    match data with
    | .obj m =>
      if pyEq (get (lit "schema_version") m) (.str (lit "1.0")) then
        .error (valueError ("legacy external action store 1.0 cannot be migrated automatically; "
          ++ "archive it and re-queue each exact bounded action"))
      else if !keysEq m [lit "schema_version", lit "actions"]
          || !pyEq (get (lit "schema_version") m) (.str (lit "1.1")) then
        .error (valueError "external action store has an invalid contract")
      else
        match get (lit "actions") m with
        | .arr rows => .ok rows
        | _ => .error (valueError "external action store has an invalid contract")
    | _ => .error (valueError "external action store has an invalid contract")

/-- Every row is valid. -/
def validateRows (C : Crypto) : List Json → Except Exn Unit
  | [] => .ok ()
  | row :: rest => do
    validateExternalActionRow C row
    validateRows C rest

/-! ## Queueing -/

/-- What an action is queued for. -/
structure ActionRequest where
  actionId : Json
  summary : Json
  risk : PyStr
  owner : Json
  scope : Json
  ttlMinutes : Json
  actionClass : PyStr

/-- The lifetime in minutes, where it is in range. -/
def ttlMinutes? : Json → Option Int
  | .int n => if 1 ≤ n ∧ n ≤ 10080 then some n else none
  | _ => none

/-- The checks on the request itself: its digest and lifetime, and its four texts. -/
def checkActionRequest (req : ActionRequest) : Except Exn Int := do
  require ((["L1", "L2", "L3"].map lit).contains req.risk
      && [lit "operational_action", lit "necessary_uat"].contains req.actionClass)
    "external action must be an explicitly classified Operational Action or Necessary UAT"
  require ([req.actionId, req.summary, req.owner, req.scope].all fun v => (text? v).isSome)
    "external action requires action_id, summary, owner, and scope"
  match ttlMinutes? req.ttlMinutes with
  | none => .error (valueError "external action ttl_minutes must be between 1 and 10080")
  | some minutes => .ok minutes

/-- The row is the one of this action. -/
def isAction (actionId : Json) (row : Json) : Bool :=
  match row with
  | .obj m => pyEq (get (lit "action_id") m) actionId
  | _ => false

/-- `str(value)` in a message, for a string. -/
def strOf : Json → PyStr
  | .str s => s
  | _ => []

/-- The row of this action and the digest of the request, once every row is checked. -/
def findAction (C : Crypto) (req : ActionRequest) (rows : List Json) :
    Except Exn (Option Members × PyStr) := do
  validateRows C rows
  let requestSha256 ← externalActionRequestSha256 C req.actionId req.summary (.str req.risk)
    req.owner (.str req.actionClass) req.scope
  match rows.filter (isAction req.actionId) with
  | [] => .ok (none, requestSha256)
  | [.obj row] =>
    if pyEq (get (lit "request_sha256") row) (.str requestSha256) then
      .ok (some row, requestSha256)
    else .error (.value (lit "external action identity changed: " ++ strOf req.actionId))
  | _ => .error (.value (lit "duplicate external action state: " ++ strOf req.actionId))

/-- The row with the mark of whether this call created it. -/
def withCreated (row : Members) (created : Bool) : Members :=
  setMember (lit "external_action_created") (.bool created) row

/-- The row once it is over. -/
def expiredRow (row : Members) (resolvedAt : Instant) : Members :=
  setMember (lit "resolution_envelope") .null
    (setMember (lit "resolution_evidence_sha256") .null
      (setMember (lit "resolution_receipt_sha256") .null
        (setMember (lit "resolved_at") (.str (stamp resolvedAt))
          (setMember (lit "status") (.str (lit "expired")) row))))

/-- An action that was queued before: a pending one may be over by now. -/
def reuseAction (req : ActionRequest) (rows : List Json) (row : Members) : HostProg Members :=
  if !pyEq (get (lit "status") row) (.str (lit "pending")) then pure (withCreated row false)
  else
    match awareMicros? (get (lit "expires_at") row) with
    | none => .raise (valueError "external action expiry is invalid")
    | some expiry => do
      let current ← ask .now
      if expiry ≤ current.val then do
        let resolvedAt ← ask .now
        let row' := expiredRow row resolvedAt
        writeJson .externalActions
          (actionStore (rows.map fun r => if isAction req.actionId r then .obj row' else r))
        emitEvent (lit "external_action_expired") (strOf (get (lit "risk_level") row'))
          (.obj [(lit "action_id", req.actionId)])
        pure (withCreated row' false)
      else pure (withCreated row false)

/-- The row of a new action. -/
def newAction (req : ActionRequest) (requestSha256 : PyStr) (ttl : Int) (current : Instant) :
    Except Exn Members :=
  match current.add? (minutes ttl) with
  | none => .error .overflow
  | some expiry =>
    .ok [(lit "action_id", req.actionId), (lit "summary", req.summary),
      (lit "risk_level", .str req.risk),
      (lit "owner", req.owner), (lit "action_class", .str req.actionClass),
        (lit "scope", req.scope),
      (lit "status", .str (lit "pending")), (lit "created_at", .str (stamp current)),
      (lit "expires_at", .str (stamp expiry)), (lit "request_sha256", .str requestSha256),
      (lit "authorization_scope", .str (lit "one concrete action only"))]

/-- An action that was not queued before. -/
def createAction (req : ActionRequest) (rows : List Json) (requestSha256 : PyStr) (ttl : Int) :
    HostProg Members := do
  let current ← ask .now
  let item ← Prog.ofExcept (newAction req requestSha256 ttl current)
  writeJson .externalActions (actionStore (rows ++ [.obj item]))
  emitEvent (lit "external_action_queued") req.risk (.obj [(lit "action_id", req.actionId)])
  pure (withCreated item true)

/-- `_enqueue_external_action_unlocked`. -/
def enqueueUnlocked (C : Crypto) (req : ActionRequest) : HostProg Members := do
  let ttl ← Prog.ofExcept (checkActionRequest req)
  let data ← readJson .externalActions (actionStore [])
  let rows ← Prog.ofExcept (externalActionRows data)
  let (existing, requestSha256) ← Prog.ofExcept (findAction C req rows)
  match existing with
  | some row => reuseAction req rows row
  | none => createAction req rows requestSha256 ttl

/-- `enqueue_external_action`. -/
def enqueueExternalAction (C : Crypto) (req : ActionRequest) : HostProg Members :=
  withLock .externalActions (enqueueUnlocked C req)

end SddGov.Governance
