import SddGov.Python.Crypto
import SddGov.Python.Json

/-!
# Requests to the trusted runner

`TrustedRunner._validate_request`: the shape of a request, the policy of its
operation, the two profiles, the bindings, the identities, the capsule and the
approval receipt, in the order in which the code checks them.

Every comparison is Python's `==`, which does not tell `True` from `1` or `1.0`,
while the approval payload is built by `rehearsal_only is True`. What a request
binds is therefore exact only where its numbers and booleans have the JSON types
of the policy (`Policy`).
-/

namespace SddGov.TrustedRunner

open SddGov.Python

/-- What a check of the runner raises: a violation with its reason, or another exception. -/
inductive RunnerError
  | violation (reason : PyStr)
  | raised (e : Exn)
  deriving DecidableEq

def violation {α : Type} (reason : String) : Except RunnerError α :=
    .error (.violation (lit reason))

/-- `if not c: raise TrustedRunnerViolation(reason)` -/
def check (c : Bool) (reason : String) : Except RunnerError Unit :=
    if c then .ok () else violation reason

/-! ## Constants -/

def actionId : PyStr := lit "AF25-HERMES-OPENAI-API-LIVE-UAT-L3-001"

def officialEndpoint : PyStr := lit "https://api.openai.com/v1"

def managedPaths : List PyStr :=
  ["agent/relay_llm.py", "agent/auxiliary_client.py", "hermes_cli/auth.py",
    "gateway/platforms/api_server.py",
    "agent/transports/codex.py"].map lit

/-- A member with a text. -/
def field (key value : String) : PyStr × Json := (lit key, .str (lit value))

def expectedSourceHashes : Members :=
  [field "agent/auxiliary_client.py"
    "ecd2bfa8eda3669637e2817691daf72d81b4abcac0f9b9f5a486d7cd6c3aba24",
    field "agent/relay_llm.py" "02d7d287b9a314592dd6247baf40aa09e442aaab60f1ade6c5edbc9eaef6b9e3",
    field "agent/transports/codex.py"
      "b91f9e2679a17cdfc74d565ee2190afbc81ca73aaa35adbff9c37ae3d2807b0e",
    field "gateway/platforms/api_server.py"
      "204fa3e857dc50c032e084f2e8ebd864ea3ebbac80891f65ad85760e92edfeda",
    field "hermes_cli/auth.py" "59801d820f0106cf9342f6b80558b6c0a683bee5985c75944bb7ca8705a6fa7c"]

def expectedContainmentProfile : Members :=
  [field "contract_version" "0.1", field "hermes_version" "0.20.4",
    field "source_revision" "f43eabee5f36e11448086ee8ee17c499958e81bf",
    (lit "source_hashes", .obj expectedSourceHashes),
    field "provider" "openai-api", field "model" "gpt-5.6-sol",
    (lit "max_inference_calls", .int 1), (lit "max_output_tokens", .int 1000)]

def expectedRouteProfile : Members :=
  [field "contract_version" "0.1",
    field "containment_profile_hash"
      "sha256:9f276ddbe0a6fc57e662ebc8dc7fe6542dea7d6af9b34f5ceec977114510d2de",
    field "hermes_version" "0.20.4",
    field "source_revision" "f43eabee5f36e11448086ee8ee17c499958e81bf",
    field "source_tree_hash"
      "sha256:3865fb7970e7f2ee2c0eb963654755fa72b785a5fe970a79cd51adc93e7647c8",
    field "provider" "openai-api", field "model" "gpt-5.6-sol",
      field "endpoint" "https://api.openai.com/v1",
    field "access_method" "api", field "credential_env_var" "OPENAI_API_KEY",
    (lit "max_input_bytes", .int 4096), (lit "max_output_tokens", .int 1000),
    (lit "max_inference_calls", .int 1),
    field "cost_control_mode" "metered_hard_cap", field "max_cost_usd" "0.25",
    field "maximum_cost_usd" "0.05048", field "input_price_per_million_usd" "5",
    field "output_price_per_million_usd" "30", field "price_snapshot_date" "2026-08-23",
    (lit "offline_only", .bool true)]

def maxInputBytes : Nat := 4096
def maxOutputTokens : Nat := 1000
def maxInferenceCalls : Nat := 1
def maxCostUsd : PyStr := lit "0.25"
def maxDurationSeconds : Nat := 120

/-! ## Digests -/

section Request

variable (C : Crypto)

/-- `_sha256` -/
def sha256Text (b : Bytes) : PyStr := lit "sha256:" ++ C.sha256 b

/-- `_canonical_hash` -/
def canonicalHash (v : Json) : Except RunnerError PyStr :=
  match canonicalBytes v with
  | some b => .ok (sha256Text C b)
  | none => .error (.raised (valueError "canonical JSON"))

/-- `_SHA256.fullmatch(value)` for a string. -/
def isSha256Text : Json → Bool
  | .str s => (lit "sha256:").isPrefixOf s && isSha256 (s.drop 7)
  | _ => false

/-- `_require_sha256` -/
def requireSha256 (value : Json) (label : PyStr) : Except RunnerError Unit :=
  if isSha256Text value then .ok () else .error (.violation (label ++ lit "_invalid"))

/-! ## The runner -/

inductive Mode
  | production
  | rehearsal
  deriving DecidableEq, Repr

def Mode.text : Mode → PyStr
  | .production => lit "production"
  | .rehearsal => lit "rehearsal"

/-- What the runner's bootstrap says and these checks read. -/
structure Bootstrap where
  runnerId : PyStr
  mode : Mode
  serviceUid : Nat
  resultPublicKey : PyStr
  runtimeSha256 : PyStr
  runtimeArgv : List PyStr
  credentialRef : PyStr
  credentialBindingHash : PyStr
  isolationParent : PyStr

/-- `launch_contract_hash` and the two hashes it is made of. -/
def launchContract (b : Bootstrap) : Except RunnerError (PyStr × PyStr × PyStr) := do
  let runtimeIdentity ← canonicalHash C (.obj [(lit "runtime_sha256", .str b.runtimeSha256),
    (lit "runtime_argv", .arr (b.runtimeArgv.map .str))])
  let parent ← match utf8Encode b.isolationParent with
    | some raw => .ok (sha256Text C raw)
    | none => .error (.raised (valueError "isolation parent"))
  let isolationPolicy ← canonicalHash C (.obj [(lit "mode", .str b.mode.text),
    (lit "isolation_parent_binding", .str parent),
    (lit "max_duration_seconds", .int maxDurationSeconds),
    field "cleanup" "term-kill-zeroize-unlink-rmtree-v1"])
  let contract ← canonicalHash C (.obj [(lit "runtime_identity_hash", .str runtimeIdentity),
    (lit "isolation_policy_hash", .str isolationPolicy),
    field "provider" "openai-api", field "model" "gpt-5.6-sol",
      (lit "endpoint", .str officialEndpoint),
    (lit "max_input_bytes", .int maxInputBytes), (lit "max_output_tokens", .int maxOutputTokens),
    (lit "max_inference_calls", .int maxInferenceCalls), (lit "max_cost_usd", .str maxCostUsd),
    (lit "max_duration_seconds", .int maxDurationSeconds)])
  .ok (runtimeIdentity, isolationPolicy, contract)

/-- `descriptor`; `authority` is what the approver file hashes to, or why it cannot be read. -/
def descriptor (b : Bootstrap) (authority : Except RunnerError PyStr) :
    Except RunnerError Members := do
  let runnerIdentity ← canonicalHash C
    (.obj [field "contract_version" "0.1", (lit "runner_id", .str b.runnerId),
    (lit "service_uid", .int b.serviceUid), (lit "result_public_key", .str b.resultPublicKey)])
  let (runtimeIdentity, isolationPolicy, contract) ← launchContract C b
  let authorityHash ← authority
  .ok [field "contract_version" "0.2", (lit "runner_identity_hash", .str runnerIdentity),
    (lit "approval_authority_identity_hash", .str authorityHash),
    (lit "credential_binding_hash", .str b.credentialBindingHash),
    (lit "runtime_identity_hash", .str runtimeIdentity),
      (lit "isolation_policy_hash", .str isolationPolicy),
    (lit "launch_contract_hash", .str contract),
    field "approval_protocol" "sddgov-ed25519-exact-operation-v1",
    field "credential_protocol" "sealed-secret-fd-v1"]

/-- The fields every operation has to have, with their values. -/
def expectedValues (b : Bootstrap) (launchContractHash : Json) : Members :=
  [(lit "action_id", .str actionId), (lit "credential_ref", .str b.credentialRef),
    (lit "launch_contract_hash", launchContractHash),
    field "provider" "openai-api", field "model" "gpt-5.6-sol",
      (lit "endpoint", .str officialEndpoint),
    (lit "max_input_bytes", .int maxInputBytes), (lit "max_output_tokens", .int maxOutputTokens),
    (lit "max_inference_calls", .int maxInferenceCalls), (lit "max_cost_usd", .str maxCostUsd),
    (lit "max_duration_seconds", .int maxDurationSeconds), field "gate_mode" "shadow",
    (lit "rehearsal_only", .bool (b.mode == .rehearsal)), field "tool_policy" "zero",
    field "approval_subagents" "denied", field "auxiliary_inference" "denied",
    (lit "promotion", .bool false), (lit "gate_enforce", .bool false),
      (lit "deployment", .bool false),
    (lit "external_trusted_runner_required", .bool true)]

/-- `_approval_operation_payload` -/
def approvalOperationPayload (operation : Members) (operationId planHash : PyStr) : Members :=
  [field "repository" "zycaskevin/Agent-Factory-core", field "project" "Agent Factory",
    (lit "environment", .str (if isTrue (get (lit "rehearsal_only") operation) then
      lit "synthetic-offline-rehearsal"
      else lit "production")),
    (lit "scope", .str operationId), field "category" "high_risk_operation",
    field "target" "external-trusted-runner",
    (lit "parameters", .obj [(lit "action_id", get (lit "action_id") operation),
      (lit "operation_id", .str operationId), (lit "plan_hash", .str planHash),
      (lit "sealed_bundle_hash", get (lit "sealed_bundle_hash") operation),
      (lit "route_profile_hash", get (lit "route_profile_hash") operation),
      (lit "containment_profile_hash", get (lit "containment_profile_hash") operation),
      (lit "provider", get (lit "provider") operation), (lit "model", get (lit "model") operation),
      (lit "output_limit", get (lit "max_output_tokens") operation),
      (lit "call_limit", get (lit "max_inference_calls") operation),
      (lit "cost_limit_usd", get (lit "max_cost_usd") operation),
      (lit "duration_limit_seconds", get (lit "max_duration_seconds") operation)]),
    (lit "effects", .obj [(lit "high_privilege", .bool true)])]

/-! ## The checks -/

def requestFields : List PyStr :=
  ["schema_version", "operation", "capsule", "sealed_bundle_delivery", "approval_required",
    "credential_delivery",
    "approval_id", "approval_envelope", "input_payload_b64"].map lit

def operationFields : List PyStr :=
  ["contract_version", "action_id", "credential_ref", "input_payload_hash", "launch_contract_hash",
    "sealed_bundle_hash", "sealed_bundle_size_bytes", "sealed_bundle_entry_count",
      "source_tree_hash",
    "managed_hashes", "external_bindings", "route_profile_hash", "containment_profile_hash",
      "route_profile",
    "containment_profile", "provider", "model", "endpoint", "max_input_bytes", "max_output_tokens",
    "max_inference_calls", "max_cost_usd", "max_duration_seconds", "gate_mode", "rehearsal_only",
      "tool_policy",
    "approval_subagents", "auxiliary_inference", "promotion", "gate_enforce", "deployment",
    "external_trusted_runner_required", "operation_id"].map lit

def deniedCapsuleFields : List PyStr :=
  ["credential_material_included", "authorization_consumed", "launch_permitted", "runtime_started",
    "inference_applied", "promotion_applied", "gate_enforce_applied", "deployment_applied"].map lit

def capsuleFields : List PyStr :=
  ["contract_version", "operation_id", "plan_hash", "sealed_bundle_hash", "external_bindings_hash",
    "environment_hash", "rehearsal_only"].map lit ++ deniedCapsuleFields

/-- `value is False` -/
def isFalse : Json → Bool
  | .bool b => !b
  | _ => false

/-- A positive JSON integer. -/
def isPositive : Json → Bool
  | .int n => 0 < n
  | _ => false

/-- A dictionary, or a violation. -/
def object (value : Json) (reason : String) : Except RunnerError Members :=
  match value with
  | .obj m => .ok m
  | _ => violation reason

/-- 64 lower-case hexadecimal digits. -/
def isDigestText : Json → Bool
  | .str s => isSha256 s
  | _ => false

/-- The containment policy: the expected profile with the request's own source hashes. -/
def containmentPolicy (profile : Members) : Members :=
  setMember (lit "source_hashes") (get (lit "source_hashes") profile) expectedContainmentProfile

/-- The route policy: the expected profile with the operation's two hashes. -/
def routePolicy (operation : Members) : Members :=
  setMember (lit "source_tree_hash") (get (lit "source_tree_hash") operation)
    (setMember (lit "containment_profile_hash") (get (lit "containment_profile_hash") operation)
      expectedRouteProfile)

def checkContainment (b : Bootstrap) (operation : Members) : Except RunnerError Unit := do
  let mismatch := "containment_profile_binding_mismatch"
  let profile ← object (get (lit "containment_profile") operation) mismatch
  check (keysEq profile (keys expectedContainmentProfile)) mismatch
  check (pyEq (.obj profile) (.obj (containmentPolicy profile))) mismatch
  let sourceHashes ← object (get (lit "source_hashes") profile) mismatch
  check (keysEq sourceHashes managedPaths && sourceHashes.all fun m => isDigestText m.2) mismatch
  let hash ← canonicalHash C (.obj profile)
  check (pyEq (get (lit "containment_profile_hash") operation) (.str hash)) mismatch
  check (b.mode != .production || pyEq (.obj profile) (.obj expectedContainmentProfile)) mismatch

def checkRoute (b : Bootstrap) (operation : Members) : Except RunnerError Unit := do
  let mismatch := "route_profile_binding_mismatch"
  let profile ← object (get (lit "route_profile") operation) mismatch
  check (keysEq profile (keys expectedRouteProfile)) mismatch
  check (pyEq (.obj profile) (.obj (routePolicy operation))) mismatch
  let hash ← canonicalHash C (.obj profile)
  check (pyEq (get (lit "route_profile_hash") operation) (.str hash)) mismatch
  check (pyEq (get (lit "containment_profile_hash") profile)
    (get (lit "containment_profile_hash") operation)
    && pyEq (get (lit "source_tree_hash") profile) (get (lit "source_tree_hash") operation))
      mismatch
  check (b.mode != .production || pyEq (.obj profile) (.obj expectedRouteProfile)) mismatch

/-- The digests and the shape of what the operation names. -/
def checkDigests (operation : Members) : Except RunnerError Unit := do
  ["input_payload_hash", "launch_contract_hash", "sealed_bundle_hash", "source_tree_hash",
    "route_profile_hash",
    "containment_profile_hash"].forM fun key => requireSha256 (get (lit key) operation) (lit key)
  check (isPositive (get (lit "sealed_bundle_size_bytes") operation)
    && isPositive (get (lit "sealed_bundle_entry_count") operation)) "sealed_bundle_shape_invalid"
  let managed ← object (get (lit "managed_hashes") operation) "managed_hashes_invalid"
  check (keysEq managed managedPaths) "managed_hashes_invalid"
  managed.forM fun m =>
    match utf8Encode m.1 with
    | some raw =>
      let digest := sha256Text C raw
      requireSha256 m.2 (lit "managed_hash_" ++ digest.drop (digest.length - 8))
    | none => .error (.raised (valueError "managed path"))

/-- The payload behind the operation's hash. -/
def checkPayload (request operation : Members) : Except RunnerError Bytes := do
  let payload ← match get (lit "input_payload_b64") request with
    | .str text =>
      match b64decode text with
      | some payload => .ok payload
      | none => violation "input_payload_invalid"
    | _ => violation "input_payload_invalid"
  check (!payload.isEmpty && payload.length ≤ maxInputBytes) "input_payload_size_invalid"
  check (pyEq (.str (sha256Text C payload)) (get (lit "input_payload_hash") operation))
    "input_payload_hash_mismatch"
  .ok payload

/-- `operation_id` and the plan hash that it carries. -/
def checkOperationId (operation : Members) : Except RunnerError (PyStr × PyStr) :=
  match get (lit "operation_id") operation with
  | .str operationId => do
    let planHash ← canonicalHash C (.obj (operation.filter fun m => m.1 != lit "operation_id"))
    check (operationId == actionId ++ lit "@" ++ planHash.drop 7) "operation_id_mismatch"
    .ok (operationId, planHash)
  | _ => violation "operation_id_invalid"

def checkCapsule (operation capsule bindings : Members) (operationId planHash : PyStr) :
    Except RunnerError Unit := do
  let mismatch := "capsule_contract_mismatch"
  check (keysEq capsule capsuleFields) mismatch
  check (pyEq (get (lit "contract_version") capsule) (.str (lit "0.3"))
    && pyEq (get (lit "operation_id") capsule) (.str operationId)
    && pyEq (get (lit "plan_hash") capsule) (.str planHash)
    && pyEq (get (lit "sealed_bundle_hash") capsule) (get (lit "sealed_bundle_hash") operation))
      mismatch
  let bindingsHash ← canonicalHash C (.obj bindings)
  check (pyEq (get (lit "external_bindings_hash") capsule) (.str bindingsHash)
    && pyEq (get (lit "rehearsal_only") capsule) (get (lit "rehearsal_only") operation)
    && deniedCapsuleFields.all fun key => isFalse (get key capsule)) mismatch
  requireSha256 (get (lit "environment_hash") capsule) (lit "environment_hash")

/-- The receipt is for this operation and states its approval payload. -/
def checkReceipt (request operation : Members) (operationId planHash : PyStr) :
    Except RunnerError (PyStr × Members) := do
  let approvalId ← match text? (get (lit "approval_id") request) with
    | some approvalId => .ok approvalId
    | none => violation "approval_envelope_invalid"
  let envelope ← object (get (lit "approval_envelope") request) "approval_envelope_invalid"
  let receipt ← object (get (lit "receipt") envelope) "approval_operation_mismatch"
  check (pyEq (get (lit "approval_id") receipt) (.str approvalId)
    && pyEq (get (lit "operation_id") receipt) (.str operationId)
    && pyEq (get (lit "scope") receipt) (.str operationId)
    && pyEq (get (lit "operation_payload") receipt)
      (.obj (approvalOperationPayload operation operationId planHash)))
        "approval_operation_mismatch"
  .ok (approvalId, envelope)

/-- `_ValidatedRequest` -/
structure ValidatedRequest where
  request : Members
  operation : Members
  operationId : PyStr
  planHash : PyStr
  approvalId : PyStr
  approvalEnvelope : Members
  inputPayload : Bytes

/-- The policy of the operation. -/
def checkPolicy (b : Bootstrap) (operation : Members) (launchContractHash : Json) :
    Except RunnerError Unit :=
  check ((expectedValues b launchContractHash).all fun m => pyEq (get m.1 operation) m.2)
    "operation_policy_mismatch"

/-- `_validate_request`. The approver file is read for each of the two descriptors. -/
def validateRequest (b : Bootstrap) (authority authority' : Except RunnerError PyStr)
    (request : Members) :
    Except RunnerError ValidatedRequest := do
  check (keysEq request requestFields && pyEq (get (lit "schema_version") request)
    (.str (lit "0.1")))
    "runner_request_contract_invalid"
  check (pyEq (get (lit "sealed_bundle_delivery") request) (.str (lit "inherited-sealed-fd"))
    && isTrue (get (lit "approval_required") request)
    && pyEq (get (lit "credential_delivery") request) (.str (lit "external-runner-private-fd")))
    "runner_request_delivery_invalid"
  let operation ← object (get (lit "operation") request) "runner_request_contract_invalid"
  let capsule ← object (get (lit "capsule") request) "runner_request_contract_invalid"
  check (keysEq operation operationFields && pyEq (get (lit "contract_version") operation)
    (.str (lit "0.3")))
    "operation_contract_invalid"
  let launch ← descriptor C b authority
  checkPolicy b operation (get (lit "launch_contract_hash") launch)
  checkContainment C b operation
  checkRoute C b operation
  let bindings ← descriptor C b authority'
  check (pyEq (get (lit "external_bindings") operation) (.obj bindings))
    "operation_external_bindings_mismatch"
  checkDigests C operation
  let payload ← checkPayload C request operation
  let (operationId, planHash) ← checkOperationId C operation
  let given ← object (get (lit "external_bindings") operation)
    "operation_external_bindings_mismatch"
  checkCapsule C operation capsule given operationId planHash
  let (approvalId, envelope) ← checkReceipt request operation operationId planHash
  .ok ⟨request, operation, operationId, planHash, approvalId, envelope, payload⟩

end Request

end SddGov.TrustedRunner
