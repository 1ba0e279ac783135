import SddGov.Autonomy.Approval
import SddGov.Autonomy.Package

/-!
# Escalation

`evaluate_escalation` in four stages, in the order of the source: `screen`
turns a request away before anything is looked up, `classify` answers what
needs no human decision, `reuseDecision` and `useApproval` look for a decision
or an approval on record, and `prepare` puts the package before the owner or
finds the external action that was queued for it.
-/

namespace SddGov.Autonomy

open SddGov.Effect SddGov.Python SddGov.Governance

/-! ## Verdicts -/

/-- The state of a result. -/
inductive State
  | continue_
  | blocked
  | actionRequired
  deriving DecidableEq

/-- A result: its state, reason and next action, and what else it holds. -/
structure Verdict where
  state : State
  requiresResponse : Bool
  reason : PyStr
  nextAction : Option PyStr
  details : Members := []

/-- `_continue`. -/
def continueWith (reason : String) (nextAction : String := "continue") : Verdict :=
  { state := .continue_, requiresResponse := false, reason := lit reason,
    nextAction := some (lit nextAction) }

/-- A blocked result, with the members some branches add. -/
def blockedWith (reason nextAction : PyStr) (details : Members := []) : Verdict :=
  { state := .blocked, requiresResponse := false, reason := reason,
    nextAction := some nextAction, details := details }

/-- `required_risk_levels`. -/
def requiredRisk (risk : String) : PyStr × Json :=
  (lit "required_risk_levels", .arr [.str (lit risk)])

/-- A blocked result for one known reason. -/
def blockedFor (reason nextAction : String) (details : Members := []) : Verdict :=
  blockedWith (lit reason) (lit nextAction) details

/-! ## Screening -/

/-- A request whose risk, category and effects are what they have to be. -/
structure Request where
  risk : PyStr
  category : PyStr
  effects : Members
  members : Members

namespace Request

variable (r : Request)

/-- The value of a field. -/
def field (name : String) : Json := get (lit name) r.members

/-- Other work can go on meanwhile. -/
def unrelatedWork : Bool := truthy (r.field "unrelated_work_exists")

/-- `risk in {"L0", "L1"}`. -/
def isLowRisk : Bool := r.risk == lit "L0" || r.risk == lit "L1"

/-- `forced_human_category`. -/
def isHuman : Bool := humanCategories.contains r.category

end Request

def authorityFields : List PyStr :=
  ["approval_id", "operation_id", "operation_payload", "decision_id", "decision_scope",
    "decision_package"].map lit

/-- The effect and risk a category has to come with; the first violation. -/
def categoryError (r : Request) : Option Verdict :=
  if hasKey (lit "public_publish") r.effects ∧ r.category ≠ lit "public_release" then
    some (blockedFor "public_publish_requires_canonical_public_release_category"
      "prepare_one_exact_public_release_operation"
      [requiredRisk "L3", (lit "required_category", .str (lit "public_release")),
        (lit "reality_boundary", .bool true)])
  else if r.category = lit "public_release" ∧ !isTrue (get (lit "public_publish") r.effects) then
    some (blockedFor "public_release_requires_public_publish_effect"
      "declare_the_public_publish_effect"
      [requiredRisk "L3", (lit "reality_boundary", .bool true)])
  else if (r.category = lit "merge" ∨ r.category = lit "release_readiness") ∧ r.effects ≠ [] then
    some (blockedFor "reality_effect_requires_canonical_l3_operation"
      "separate_readiness_from_the_exact_external_operation"
      [requiredRisk "L3",
        (lit "required_category", .str (if hasKey (lit "public_publish") r.effects
          then lit "public_release" else lit "high_risk_operation")),
        (lit "reality_boundary", .bool true)])
  else if (r.category = lit "merge" ∨ r.category = lit "release_readiness") ∧ r.risk ≠ lit "L1" then
    some (blockedWith (r.category ++ lit "_requires_exact_l1_without_reality_effects")
      (lit "reclassify_the_effect_free_engineering_channel_as_l1")
      [requiredRisk "L1", (lit "reality_boundary", .bool false)])
  else if r.category = lit "product_decision" ∧ r.risk ≠ lit "L2" then
    some (blockedFor "product_decision_requires_exact_l2_risk"
      "reclassify_and_prepare_signed_l2_decision_package" [requiredRisk "L2"])
  else if r.category = lit "high_risk_operation" ∧ r.risk ≠ lit "L3" then
    some (blockedFor "high_risk_operation_cannot_be_downgraded"
      "reclassify_and_prepare_exact_l3_decision_package" [requiredRisk "L3"])
  else if (r.category ∈ highRiskCategories ∨ r.effects ≠ []) ∧ r.risk ≠ lit "L3" then
    some (blockedFor "dangerous_action_cannot_be_downgraded"
      "reclassify_and_prepare_exact_l3_decision_package" [requiredRisk "L3"])
  else none

/-- Fields a request of its risk and category must not carry. -/
def envelopeError (r : Request) : Option Verdict :=
  if r.isLowRisk ∧ r.category ∈ routineOperations
      ∧ authorityFields.any (hasKey · r.members) then
    some (blockedFor "authority_bearing_fields_not_allowed_for_routine_action"
      "rebuild_request_with_one_exact_authority_class")
  else
    match if r.isLowRisk then l0L1EnvelopeError r.category r.members else none with
    | some reason =>
      some (blockedWith reason
        (lit "use_one_closed_typed_executor_contract_or_remove_executable_fields"))
    | none =>
      (closedCategoryEnvelopeError r.category r.members).map fun reason =>
        blockedWith reason (lit "rebuild_request_with_one_exact_category_schema")

/-- The risk, the category and the effects of a request; `inl` is an early answer. -/
def readRequest (m : Members) : Except Exn (Verdict ⊕ Request) :=
  match get (lit "risk_level") m with
  | .str risk =>
    if risk ∉ riskLevels then
      .ok (.inl (blockedFor "autonomy_request_has_an_invalid_contract"
        "repair_the_machine_request_before_reclassification"))
    else
      match get (lit "category") m with
      | .str category =>
        if category = [] then .error (valueError "category is required")
        else if category ∉ knownCategories then
          .ok (.inl (blockedFor "unrecognized_action_category"
            "classify_with_canonical_action_category_and_effects"))
        else
          match lookup (lit "effects") m with
          | none =>
            .error (valueError "effects is required and must explicitly classify sensitive effects")
          | some (.obj effects) =>
            if validEffects effects then .ok (.inr ⟨risk, category, effects, m⟩)
            else .error (valueError "effects must contain only known sensitive flags set to true")
          | some _ => .error (valueError "effects must be an object of known sensitive flags")
      | _ => .error (valueError "category is required")
  | _ =>
    .ok (.inl (blockedFor "autonomy_request_has_an_invalid_contract"
      "repair_the_machine_request_before_reclassification"))

/-- Everything before `forced_human_category`: a request that gets through, or its answer. -/
def screen (m : Members) : Except Exn (Verdict ⊕ Request) :=
  match readRequest m with
  | .ok (.inr r) =>
    match envelopeError r with
    | some v => .ok (.inl v)
    | none =>
      match categoryError r with
      | some v => .ok (.inl v)
      | none => .ok (.inr r)
  | x => x

/-! ## Classification -/

/-- A result that only lets unrelated work go on. -/
def unrelatedOnly (r : Request) (reason nextAction otherwise : String) (details : Members := []) :
    Verdict :=
  { state := if r.unrelatedWork then .continue_ else .blocked, requiresResponse := false,
    reason := lit reason, nextAction :=
      some (lit (if r.unrelatedWork then nextAction else otherwise)),
    details := details }

/-- The answer to a routine operation. -/
def routineVerdict (r : Request) : Verdict :=
  let v := continueWith "no_human_escalation_if_machine_verifiable"
    "verify_with_repo_decisions_tests_ci_or_tools"
  if r.category = lit "merge" ∨ r.category = lit "release_readiness" then
    { v with details :=
      [(lit "channel", .str (if r.category = lit "release_readiness"
          then lit "release_readiness" else lit "development")),
        (lit "reality_boundary", .bool false), (lit "owner_operations_required", .int 0)] }
  else v

/-- What is answered without looking at any record. -/
def classify (r : Request) : Option Verdict :=
  if r.category = lit "checkpoint" then some (continueWith "checkpoint_is_informational")
  else if r.category = lit "integrity_mismatch" then
    some (unrelatedOnly r "integrity_mismatch_requires_machine_investigation"
      "investigate_artifact_and_continue_unrelated_work" "investigate_artifact"
      [(lit "artifact_state", .str (lit "BLOCKED"))])
  else if r.category = lit "uncertainty" then
    if isTrue (r.field "machine_verifiable") then
      some (continueWith "machine_verifiable_uncertainty_requires_investigation"
        "verify_with_repo_decisions_tests_ci_or_tools")
    else
      some (unrelatedOnly r "uncertainty_must_be_investigated_not_escalated"
        "investigate_and_continue_unrelated_work"
        "investigate_and_reclassify_with_one_canonical_category")
  else if !r.isHuman && routineOperations.contains r.category && r.isLowRisk then
    some (routineVerdict r)
  else if !r.isHuman && truthy (r.field "machine_verifiable") && r.isLowRisk then
    some (continueWith "no_human_escalation_if_machine_verifiable"
      "verify_with_repo_decisions_tests_ci_or_tools")
  else if r.isLowRisk && !r.isHuman then
    some (continueWith "l0_l1_engineering_is_pre_authorized")
  else none

/-! ## Decisions and approvals on record -/

/-- `_find_decision`. -/
def findDecision (decisionId : Json) : HostProg (Option Members) :=
  if !truthy decisionId then pure none
  else do
    let store ← decisionStore
    pure (store.decisions.find? (hasDecisionId decisionId))

/-- The decision was recorded as a plain-language choice of the owner. -/
def isPlainDecision (row : Members) : Bool :=
  pyEq (get (lit "approval_mode") row) (.str (lit "plain_language_owner_choice"))

/-- `_plain_l2_approval_matches`, for a decision of that kind. -/
def plainMatches (r : Request) (row : Members) : HostProg Bool :=
  if isPlainDecision row then
    raising (ask (.plainDecisionMatches (.obj row) (r.field "decision_scope")
      (r.field "decision_package")))
  else pure false

/-- Either kind of match. -/
def recordedMatches (r : Request) (row : Members) (plain : Bool) : HostProg Bool :=
  if plain then pure true
  else raising (ask (.decisionMatches (.obj row) (r.field "decision_scope")))

/-- The answer to a decision that matches: a new package must not come with it. -/
def reusedVerdict (r : Request) (row : Members) (plain : Bool) : Verdict :=
  if hasKey (lit "decision_package") r.members && !plain then
    if isPlainDecision row then
      blockedFor "existing_plain_language_decision_package_changed"
        "reopen_one_bounded_product_decision"
    else
      blockedFor "existing_decision_reuse_must_not_include_decision_package"
        "remove_the_new_package_or_reopen_one_bounded_product_decision"
  else continueWith "existing_decision_reused_without_duplicate_question"

/-- A recorded L2 decision for this request, if it still matches. -/
def reuseDecision (r : Request) : HostProg (Option Verdict) := do
  let recorded ← findDecision (r.field "decision_id")
  match recorded with
  | none => pure none
  | some row => do
    let plain ← plainMatches r row
    let isMatch ← recordedMatches r row plain
    pure (if isMatch then some (reusedVerdict r row plain) else none)

/-- The signed payload inside a stored envelope. -/
def authorizedPayload (row : Members) : Except Exn Json := do
  let receipt ← item (get (lit "approval_envelope") row) "receipt"
  item receipt "operation_payload"

/-- The result of a consumed approval. -/
def approvedVerdict (row : Members) : Except Exn Verdict := do
  let payload ← authorizedPayload row
  pure { continueWith "fresh_l3_operation_approval_verified" with
    details := [(lit "approval_id", get (lit "decision_id") row),
      (lit "operation_id", get (lit "operation_id") row),
      (lit "authorized_operation_payload", payload),
      (lit "operation_payload_sha256", get (lit "operation_payload_sha256") row),
      (lit "approval_consumed", .bool true)] }

/-- The answer to what `_consume_operation_approval` returned. -/
def approvalVerdict (approval : Members) : Except Exn Verdict :=
  if truthy (get (lit "_runtime_context_blocked") approval) then
    .ok (blockedFor "l3_runtime_context_mismatch"
      "recover_independent_runtime_context_or_reissue_exact_payload")
  else if truthy (get (lit "_control_plane_blocked") approval) then
    .ok (blockedFor "l3_external_nonce_ledger_unavailable"
      "provision_or_recover_independent_l3_control_plane")
  else approvedVerdict approval

/-- No approval was consumed: one that is on record is used up. -/
def unavailableApproval (approvalId : Json) : HostProg (Option Verdict) := do
  let store ← decisionStore
  if store.decisions.any (hasDecisionId approvalId) then
    pure (some (blockedFor "l3_approval_is_unavailable_expired_or_consumed"
      "prepare_a_new_exact_operation_approval_id"))
  else pure none

/-- The requested payload is the one of the outer request. -/
def payloadMatches (r : Request) : Json → Bool
  | .obj payload =>
    pyEq (get (lit "category") payload) (.str r.category)
      && pyEq (get (lit "effects") payload) (.obj r.effects)
  | _ => false

/-- The L3 approval a request names. -/
def useApproval (C : Crypto) (r : Request) : HostProg (Option Verdict) :=
  match validateOperationPayload C (r.field "operation_payload") with
  | .error (.value message) =>
    pure (some (blockedFor "exact_operation_payload_required" "prepare_canonical_operation_payload"
      [(lit "detail", .str message)]))
  | .error e => .raise e
  | .ok _ =>
    if !payloadMatches r (r.field "operation_payload") then
      pure (some (blockedFor "operation_payload_does_not_match_request"
        "rebuild_exact_operation_request"))
    else do
      let approval ← consumeOperationApproval C (r.field "approval_id") (r.field "operation_id")
        (r.field "operation_payload")
      match approval with
      | some row => do
        let v ← Prog.ofExcept (approvalVerdict row)
        pure (some v)
      | none => unavailableApproval (r.field "approval_id")

/-! ## Putting a package before the owner -/

/-- `str(exc)`; the texts of Python's own type errors are not kept. -/
def detailOf : Exn → PyStr
  | .value message => message
  | _ => []

/-- `except (AttributeError, TypeError, ValueError)`. -/
def isPackageError : Exn → Bool
  | .attribute => true
  | .type => true
  | .value _ => true
  | _ => false

def packageContract (detail : PyStr) : Verdict :=
  blockedFor "decision_package_has_an_invalid_contract" "rebuild_one_strict_decision_package"
    [(lit "detail", .str detail)]

/-- The package of a request, checked and bound; `inl` is an early answer. -/
def readPackage (C : Crypto) (r : Request) : Except Exn (Verdict ⊕ Members) :=
  match r.field "decision_package" with
  | .obj input =>
    match buildActionRequired C input with
    | .error e => if isPackageError e then .ok (.inl (packageContract (detailOf e))) else .error e
    | .ok package =>
      match actionRequiredBindingError C r.risk r.category r.members package with
      | .error e => .error e
      | .ok (some reason) =>
        .ok (.inl (blockedWith reason (lit "bind_the_package_to_the_exact_outer_request")))
      | .ok none => .ok (.inr package)
  | _ => .ok
      (.inl (packageContract (lit "a genuine escalation requires a strict decision_package")))

/-- The action a request of a human category asks for. -/
def actionRequest (r : Request) (package : Members) : ActionRequest :=
  let kind := if r.category = lit "operational_action" then "action" else "uat"
  { actionId := r.field (kind ++ "_id")
    summary := get (lit "why_human_input_is_required") package
    risk := r.risk
    owner := r.field (kind ++ "_owner")
    scope := r.field (kind ++ "_scope")
    ttlMinutes := (lookup (lit (kind ++ "_ttl_minutes")) r.members).getD (.int 1440)
    actionClass := r.category }

/-- The proof of a terminal action does not hold. -/
def untrustedResolution (r : Request) (details : Members := []) : Verdict :=
  blockedWith (r.category ++ lit "_resolution_is_untrusted")
    (lit "import_one_exact_owner_signed_resolution_receipt") details

/-- The answer to a failed `enqueue_external_action`. -/
def enqueueError (r : Request) (message : PyStr) : Verdict :=
  if (lit "terminal external action row").isPrefixOf message then
    untrustedResolution r [(lit "detail", .str message)]
  else
    blockedWith (r.category ++ lit "_state_is_invalid")
      (lit "repair_or_reissue_the_bounded_external_action") [(lit "detail", .str message)]

/-- The verified receipt is the one of this very row. -/
def resolutionMatches (row : Members) (receipt : ResolutionReceipt) (receiptSha256 : PyStr) :
    Bool :=
  [("action_id", receipt.actionId), ("action_class", receipt.actionClass), ("owner", receipt.owner),
    ("scope", receipt.scope), ("request_sha256", receipt.requestSha256), ("status", receipt.status),
    ("resolution_receipt_sha256", receiptSha256)].all fun field =>
      pyEq (get (lit field.1) row) (.str field.2)

/-- The details of an action that is there already. -/
def notCreated (row : Members) : Members :=
  [(lit "external_action_created", .bool false), (lit "action_id", get (lit "action_id") row)]

def overVerdict (r : Request) (row : Members) (status : String) : Verdict :=
  blockedWith (r.category ++ lit "_" ++ lit status)
    (lit "issue_a_new_bounded_request_only_if_the_need_still_exists") (notCreated row)

/-- An action whose row says it is over by the owner's word. -/
def resolvedAction (C : Crypto) (r : Request) (row : Members) : HostProg Verdict := do
  let verified ← noneOnValueError
    (verifyResolutionEnvelope C (get (lit "resolution_envelope") row) false)
  match verified with
  | none => pure (untrustedResolution r)
  | some (receipt, receiptSha256) =>
    if !resolutionMatches row receipt receiptSha256 then pure (untrustedResolution r)
    else if pyEq (get (lit "status") row) (.str (lit "completed")) then
      pure { continueWith "" with reason := r.category ++ lit "_already_completed" }
    else pure (overVerdict r row "cancelled")

/-- An action that was queued before this request. -/
def existingAction (C : Crypto) (r : Request) (row : Members) : HostProg Verdict :=
  if pyEq (get (lit "status") row) (.str (lit "completed"))
      || pyEq (get (lit "status") row) (.str (lit "cancelled")) then resolvedAction C r row
  else if pyEq (get (lit "status") row) (.str (lit "expired")) then
    pure (overVerdict r row "expired")
  else
    pure { unrelatedOnly r "" "continue_unrelated_work" "wait_for_existing_bounded_owner_action"
        (notCreated row) with reason := r.category ++ lit "_already_pending" }

/-- The details of a queued action. -/
def createdDetails (row : Members) : Members :=
  [(lit "external_action_created", .bool true), (lit "action_id", get (lit "action_id") row)]

/-- The owner is asked. -/
def actionRequiredVerdict (package : Members) (details : Members := []) : Verdict :=
  { state := .actionRequired, requiresResponse := true,
    reason := lit "human_judgment_required_by_policy", nextAction := none,
    details := (lit "decision_package", .obj package) :: details }

/-- The owner is asked, and unrelated work goes on. -/
def surfaceVerdict (reason : PyStr) (nextAction : String) (package : Members)
    (details : Members := []) : Verdict :=
  { state := .continue_, requiresResponse := false, reason := reason,
    nextAction := some (lit nextAction), details :=
      (lit "action_required", .obj package) :: details }

/-- A request of a human category: its action is queued, or found in the queue. -/
def prepareAction (C : Crypto) (r : Request) (package : Members) : HostProg Verdict :=
  let req := actionRequest r package
  if (text? req.owner).isNone then
    pure (blockedWith (r.category ++ lit "_owner_is_required")
      (lit "bind_one_owner_and_bounded_scope_before_prompting"))
  else
    (enqueueExternalAction C req).handle
      (fun row =>
        if !truthy (get (lit "external_action_created") row) then existingAction C r row
        else if r.unrelatedWork then
          pure (surfaceVerdict (r.category ++ lit "_blocks_only_dependent_work")
            "queue_action_required_and_continue_unrelated_work" package (createdDetails row))
        else pure (actionRequiredVerdict package (createdDetails row)))
      fun
        | .value message => pure (enqueueError r message)
        | e => .raise e

/-- The end of `evaluate_escalation`. -/
def prepare (C : Crypto) (r : Request) : HostProg Verdict := do
  let package ← Prog.ofExcept (readPackage C r)
  match package with
  | .inl v => pure v
  | .inr package =>
    if r.isHuman then prepareAction C r package
    else if r.unrelatedWork then
      pure (surfaceVerdict (lit "human_decision_blocks_only_dependent_work")
        "surface_action_required_and_continue_unrelated_work" package)
    else pure (actionRequiredVerdict package)

/-! ## `evaluate_escalation` -/

/-- The recorded decision or approval that answers a request. -/
def onRecord (C : Crypto) (r : Request) : HostProg (Option Verdict) :=
  if r.risk = lit "L2" ∧ r.category = lit "product_decision" then reuseDecision r
  else if r.risk = lit "L3" ∧ truthy (r.field "approval_id") then useApproval C r
  else pure none

/-- A request that needs a decision. -/
def decideRequest (C : Crypto) (r : Request) : HostProg Verdict := do
  let recorded ← onRecord C r
  match recorded with
  | some v => pure v
  | none => prepare C r

def evaluateEscalation (C : Crypto) (m : Members) : HostProg Verdict := do
  let screened ← Prog.ofExcept (screen m)
  match screened with
  | .inl v => pure v
  | .inr r =>
    match classify r with
    | some v => pure v
    | none => decideRequest C r

end SddGov.Autonomy
