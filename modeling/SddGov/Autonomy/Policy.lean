import SddGov.Python.Crypto

/-!
# Request policy

The pure part of the autonomy policy: the closed sets of risks, categories and
effects, the contract of an operation payload, the fields a request of each
category may carry, and the decision package with its binding to the request.
Every check is in the order of the source, so the first failing one names the
error.
-/

namespace SddGov.Autonomy

open SddGov.Python

/-! ## Closed sets -/

def riskLevels : List PyStr := [lit "L0", lit "L1", lit "L2", lit "L3"]

def routineOperations : List PyStr :=
  ["issue", "branch", "implementation", "commit", "feature_branch_push", "pull_request", "review",
    "review_fix", "lint", "typecheck", "test", "e2e", "security_scan", "dependency_conflict",
    "git_conflict", "recoverable_retry", "integrity_verification", "ci", "merge",
    "release_readiness"].map lit

def escalationCategories : List PyStr :=
  ["uncertainty", "product_decision", "high_risk_operation", "operational_action",
    "necessary_uat"].map lit

def highRiskCategories : List PyStr :=
  ["production_data_deletion", "irreversible_migration", "secret_change",
    "permission_boundary_change", "real_payment", "high_privilege_production_operation",
    "public_release"].map lit

def sensitiveEffects : List PyStr :=
  ["production", "destructive", "irreversible", "secret_change", "permission_boundary_change",
    "real_payment", "high_privilege", "public_publish"].map lit

def knownCategories : List PyStr :=
  routineOperations ++ escalationCategories ++ highRiskCategories
    ++ [lit "checkpoint", lit "integrity_mismatch"]

/-- The categories an operation payload may have. -/
def operationCategories : List PyStr := highRiskCategories ++ [lit "high_risk_operation"]

def actionRequiredFields : List String :=
  ["decision_id", "risk_level", "why_human_input_is_required", "what_agent_already_verified",
    "options", "recommended", "why", "impact_if_no_decision", "scope_of_approval"]

/-- `operational_action` and `necessary_uat`. -/
def humanCategories : List PyStr := [lit "operational_action", lit "necessary_uat"]

/-! ## Operation payloads -/

/-- Case-insensitive matching: what a character is compared as. -/
def foldCase (c : CodePoint) : CodePoint :=
  if 0x41 ≤ c.val ∧ c.val ≤ 0x5A then cp (c.val + 32)
  -- the dotted and dotless I, the long S and the Kelvin sign match ASCII letters
  else if c.val = 0x130 ∨ c.val = 0x131 then cp 0x69
  else if c.val = 0x17F then cp 0x73
  else if c.val = 0x212A then cp 0x6B
  else c

/-- The words of `sensitive_key`. -/
def sensitiveWords : List PyStr :=
  ["password", "secret", "token", "credential", "privatekey", "private_key", "private-key"].map lit

/-- `sensitive_key.search(key)`. -/
def isSensitiveKey (key : PyStr) : Bool :=
  sensitiveWords.any fun word => (key.map foldCase).tails.any fun t => word.isPrefixOf t

mutual
/-- `contains_sensitive_key`. -/
def containsSensitiveKey : Json → Bool
  | .obj m => containsSensitiveMember m
  | .arr xs => containsSensitiveElement xs
  | _ => false

def containsSensitiveMember : Members → Bool
  | [] => false
  | (key, child) :: rest =>
    isSensitiveKey key || containsSensitiveKey child || containsSensitiveMember rest

def containsSensitiveElement : List Json → Bool
  | [] => false
  | child :: rest => containsSensitiveKey child || containsSensitiveElement rest
end

/-- Only known sensitive flags, each set to `True`. -/
def validEffects (effects : Members) : Bool :=
  effects.all fun e => sensitiveEffects.contains e.1 && isTrue e.2

def operationPayloadFields : List PyStr :=
  ["repository", "project", "environment", "scope", "category", "target", "parameters",
    "effects"].map lit

/-- `_canonical_digest`. -/
def canonicalDigest (C : Crypto) (value : Json) : Except Exn PyStr :=
  match C.digest value with
  | none => .error (valueError "canonical payload must contain finite JSON values")
  | some digest => .ok digest

/-- A member that is a string and not blank. -/
def hasText (m : Members) (field : String) : Bool := (text? (get (lit field) m)).isSome

/-- The `effects` part of `_validate_operation_payload`. -/
def validateOperationEffects (category : Json) : Json → Except Exn Unit
  | .obj effects => do
    require (validEffects effects) "operation_payload effects are invalid"
    require (!pyEq category (.str (lit "public_release"))
      || isTrue (get (lit "public_publish") effects))
      "public_release operation must declare public_publish"
    require (!hasKey (lit "public_publish") effects
      || pyEq category (.str (lit "public_release")))
      "public_publish effect requires public_release category"
  | _ => .error (valueError "operation_payload effects are invalid")

/-- `_validate_operation_payload`: the digest of a valid payload. -/
def validateOperationPayload (C : Crypto) (payload : Json) : Except Exn PyStr :=
  match payload with
  | .obj m => do
    require (keysEq m operationPayloadFields) "operation_payload has an invalid contract"
    let known ← memberOfSet (get (lit "category") m) operationCategories
    require known "operation_payload category is not an L3 operation"
    require (hasText m "target") "operation_payload target must not be blank"
    require (hasText m "repository") "operation_payload repository must not be blank"
    require (hasText m "project") "operation_payload project must not be blank"
    require (hasText m "environment") "operation_payload environment must not be blank"
    require (hasText m "scope") "operation_payload scope must not be blank"
    require (isObject (get (lit "parameters") m)) "operation_payload parameters must be an object"
    require (!containsSensitiveKey (get (lit "parameters") m))
      "operation_payload must reference secrets, never contain them"
    validateOperationEffects (get (lit "category") m) (get (lit "effects") m)
    canonicalDigest C payload
  | _ => .error (valueError "operation_payload has an invalid contract")

/-- A valid payload's digest is the digest of its canonical form. -/
theorem validateOperationPayload_digest {C : Crypto} {payload : Json} {digest : PyStr}
    (h : validateOperationPayload C payload = .ok digest) : C.digest payload = some digest := by
  unfold validateOperationPayload at h
  split at h
  · -- eleven checks, then the digest
    obtain ⟨_, -, h⟩ := except_bind_ok.mp h
    obtain ⟨_, -, h⟩ := except_bind_ok.mp h
    obtain ⟨_, -, h⟩ := except_bind_ok.mp h
    obtain ⟨_, -, h⟩ := except_bind_ok.mp h
    obtain ⟨_, -, h⟩ := except_bind_ok.mp h
    obtain ⟨_, -, h⟩ := except_bind_ok.mp h
    obtain ⟨_, -, h⟩ := except_bind_ok.mp h
    obtain ⟨_, -, h⟩ := except_bind_ok.mp h
    obtain ⟨_, -, h⟩ := except_bind_ok.mp h
    obtain ⟨_, -, h⟩ := except_bind_ok.mp h
    obtain ⟨_, -, h⟩ := except_bind_ok.mp h
    unfold canonicalDigest at h
    split at h
    · exact absurd h (by simp)
    · next d hd =>
      obtain rfl := Except.ok.inj h
      exact hd
  · exact absurd h (by simp)

/-! ## Request envelopes -/

/-- The first of two optional Boolean fields that is there and not a Boolean. -/
def booleanFieldError (m : Members) (field : String) : Bool :=
  match lookup (lit field) m with
  | some (.bool _) => false
  | some _ => true
  | none => false

/-- `_l0_l1_envelope_error`. -/
def l0L1EnvelopeError (category : PyStr) (m : Members) : Option PyStr :=
  if category ∈ humanCategories then none
  else
    let allowed := ["risk_level", "category", "effects"].map lit
      ++ (if category = lit "integrity_mismatch" then [lit "unrelated_work_exists"]
        else if category = lit "uncertainty" then
          [lit "machine_verifiable", lit "unrelated_work_exists"]
        else [])
    if !keysWithin m allowed then
      some (lit "low_risk_action_requires_closed_typed_executor_contract")
    else if !pyEq (get (lit "effects") m) (.obj []) then none
    else if booleanFieldError m "machine_verifiable"
        || booleanFieldError m "unrelated_work_exists" then
      some (lit "low_risk_action_boolean_field_is_invalid")
    else none

/-- The fields a category adds to `risk_level`, `category` and `effects`. -/
def categoryFields (category : PyStr) : List PyStr :=
  if category = lit "product_decision" then
    ["decision_id", "decision_scope", "assumptions_sha256", "reopen_condition_triggered",
      "decision_package", "unrelated_work_exists", "assumption_paths", "approver_id", "valid_days",
      "owner_client"].map lit
  else if category ∈ operationCategories then
    ["approval_id", "operation_id", "operation_payload", "decision_package", "machine_verifiable",
      "unrelated_work_exists"].map lit
  else if category = lit "operational_action" then
    ["action_id", "action_owner", "action_scope", "action_ttl_minutes", "decision_package",
      "unrelated_work_exists"].map lit
  else if category = lit "necessary_uat" then
    ["uat_id", "uat_owner", "uat_scope", "uat_ttl_minutes", "decision_package",
      "unrelated_work_exists"].map lit
  else if category = lit "uncertainty" then
    ["machine_verifiable", "unrelated_work_exists", "decision_package"].map lit
  else if category = lit "integrity_mismatch" then [lit "unrelated_work_exists"]
  else []

/-- `_closed_category_envelope_error`. -/
def closedCategoryEnvelopeError (category : PyStr) (m : Members) : Option PyStr :=
  if category = lit "necessary_uat" ∧ hasKey (lit "machine_verifiable") m then
    some (lit "machine_verifiable_work_is_not_necessary_uat")
  else if keysWithin m (["risk_level", "category", "effects"].map lit ++ categoryFields category)
  then none
  else some (lit "request_contains_fields_outside_closed_category_schema")

end SddGov.Autonomy
