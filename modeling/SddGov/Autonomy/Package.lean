import SddGov.Governance.Host
import SddGov.Autonomy.Policy

/-!
# Decision packages

`build_action_required` checks what is put before the owner, and
`_action_required_binding_error` ties it to the request it is shown for. The
package arrives as keyword arguments from JSON, so a value can have any type;
what Python raises for a wrong one is the exception class here.
-/

namespace SddGov.Autonomy

open SddGov.Python SddGov.Governance

/-! ## Building a package -/

/-- The keyword arguments without a default. -/
def packageArguments : List PyStr := actionRequiredFields.map lit

/-- `f(**arguments)`: a missing or an unexpected keyword is a `TypeError`. -/
def bindArguments (m : Members) : Except Exn Unit :=
  if keysWithin m (packageArguments ++ [lit "operation_payload"])
      && packageArguments.all ((keys m).contains ·) then .ok ()
  else .error .type

/-- `[item.strip() for item in items if item.strip()]`. -/
def strippedItems : List Json → Except Exn (List Json)
  | [] => .ok []
  | item :: rest => do
    let text ← stripOf item
    let others ← strippedItems rest
    pure (if text = [] then others else .str text :: others)

/-- The names `set(option)` holds; an element without a hash is a `TypeError`. -/
def optionNames : Json → Except Exn (List Json)
  | .obj m => .ok ((keys m).map .str)
  | .str s => .ok (s.map fun c => .str [c])
  | .arr xs => if xs.any fun x => isArray x || isObject x then .error .type else .ok xs
  | _ => .error .type

/-- `set(option) != {"label", "description"}`. -/
def isLabelled (names : List Json) : Bool :=
  let expected : List Json := [.str (lit "label"), .str (lit "description")]
  names.all (fun n => expected.any (pyEq n ·)) && expected.all fun e => names.any (pyEq · e)

/-- The label of one option. -/
def optionLabel (option : Json) : Except Exn Json := do
  let names ← optionNames option
  require (isLabelled names) "each option must contain only label and description"
  let label ← item option "label"
  let labelText ← stripOf label
  require (!labelText.isEmpty) "ACTION REQUIRED options must not be blank"
  let description ← item option "description"
  let descriptionText ← stripOf description
  require (!descriptionText.isEmpty) "ACTION REQUIRED options must not be blank"
  pure label

/-- The labels of all options. -/
def optionLabels : List Json → Except Exn (List Json)
  | [] => .ok []
  | option :: rest => do
    let label ← optionLabel option
    let others ← optionLabels rest
    pure (label :: others)

/-- A package field that is empty or blank. -/
def isMissing (package : Members) (field : String) : Bool :=
  let value := get (lit field) package
  !truthy value || match value with
    | .str s => isBlank s
    | _ => false

/-- `", ".join(fields)`. -/
def joinFields : List String → PyStr
  | [] => []
  | [f] => lit f
  | f :: rest => lit f ++ lit ", " ++ joinFields rest

/-- The payload part: only an L3 package has one, and it has to be valid. -/
def packagePayload (C : Crypto) (riskLevel operationPayload : Json) : Except Exn Unit :=
  if pyEq riskLevel (.str (lit "L3")) then
    (validateOperationPayload C operationPayload).map fun _ => ()
  else require (pyEq operationPayload .null)
    "only an L3 ACTION REQUIRED may contain operation_payload"

/-- The members of the finished package. -/
def packageMembers (m : Members) (verified options : List Json) : Members :=
  [(lit "heading", .str (lit "ACTION REQUIRED")), (lit "decision_id", get (lit "decision_id") m),
    (lit "risk_level", get (lit "risk_level") m),
    (lit "why_human_input_is_required", get (lit "why_human_input_is_required") m),
    (lit "what_agent_already_verified", .arr verified), (lit "options", .arr options),
    (lit "recommended", get (lit "recommended") m), (lit "why", get (lit "why") m),
    (lit "impact_if_no_decision", get (lit "impact_if_no_decision") m),
    (lit "scope_of_approval", get (lit "scope_of_approval") m)]
    ++ (match get (lit "operation_payload") m with
      | .null => []
      | payload => [(lit "operation_payload", payload)])

/-- `decision_id.strip()` and `why_human_input_is_required.strip()`: the second is not looked
at where the first is empty. -/
def packageReason (decisionId reason : Json) : Except Exn Unit := do
  let decisionText ← stripOf decisionId
  require (!decisionText.isEmpty) "ACTION REQUIRED needs a decision ID and bounded reason"
  let reasonText ← stripOf reason
  require (!reasonText.isEmpty) "ACTION REQUIRED needs a decision ID and bounded reason"

/-- `build_action_required(**arguments)`. -/
def buildActionRequired (C : Crypto) (m : Members) : Except Exn Members := do
  bindArguments m
  let known ← memberOfSet (get (lit "risk_level") m) (["L2", "L3", "Operational", "UAT"].map lit)
  require known "ACTION REQUIRED risk must be L2, L3, Operational, or UAT"
  let items ← elements (get (lit "what_agent_already_verified") m)
  let verified ← strippedItems items
  let choices ← elements (get (lit "options") m)
  packageReason (get (lit "decision_id") m) (get (lit "why_human_input_is_required") m)
  require (!verified.isEmpty) "ACTION REQUIRED must list what the Agent already verified"
  require (2 ≤ choices.length) "ACTION REQUIRED must provide at least two options"
  let labels ← optionLabels choices
  require (labels.any (pyEq (get (lit "recommended") m) ·))
    "recommended must name one provided option"
  packagePayload C (get (lit "risk_level") m) (get (lit "operation_payload") m)
  let package := packageMembers m verified choices
  match actionRequiredFields.filter (isMissing package) with
  | [] => pure package
  | missing => .error (.value (lit "ACTION REQUIRED missing fields: " ++ joinFields missing))

/-! ## Binding a package to its request -/

/-- The reason of a package that is not bound to its identity and scope. -/
def identityBindingError (expectedRisk : Json) (identity scope : Json) (package : Members) :
    Option PyStr :=
  if !pyEq (get (lit "risk_level") package) expectedRisk then
    some (lit "action_required_risk_does_not_match_request")
  else if (text? identity).isNone then some (lit "action_required_outer_identity_is_required")
  else if !pyEq (get (lit "decision_id") package) identity then
    some (lit "action_required_identity_does_not_match_request")
  else if (text? scope).isNone then some (lit "action_required_outer_scope_is_required")
  else if !pyEq (get (lit "scope_of_approval") package) scope then
    some (lit "action_required_scope_does_not_match_request")
  else none

/-- The part of `_action_required_binding_error` for an L3 operation. -/
def operationBindingError (C : Crypto) (category : PyStr) (m package : Members) :
    Except Exn (Option PyStr) :=
  if !pyEq (get (lit "risk_level") package) (.str (lit "L3")) then
    .ok (some (lit "action_required_risk_does_not_match_request"))
  else
    match get (lit "operation_payload") m with
    | .obj payload =>
      match validateOperationPayload C (.obj payload) with
      | .error (.value _) => .ok (some (lit "l3_prompt_requires_exact_operation_payload"))
      | .error e => .error e
      | .ok _ =>
        if !pyEq (get (lit "category") payload) (.str category)
            || !pyEq (get (lit "effects") payload) (get (lit "effects") m) then
          .ok (some (lit "l3_prompt_payload_does_not_match_request"))
        else if !pyEq (get (lit "operation_payload") package) (.obj payload) then
          .ok (some (lit "l3_prompt_package_payload_does_not_match_request"))
        else if (text? (get (lit "operation_id") m)).isNone then
          .ok (some (lit "l3_prompt_requires_operation_id"))
        else
          .ok (identityBindingError (.str (lit "L3")) (get (lit "approval_id") m)
            (get (lit "scope") payload) package)
    | _ => .ok (some (lit "l3_prompt_requires_exact_operation_payload"))

/-- `_action_required_binding_error`. -/
def actionRequiredBindingError (C : Crypto) (risk category : PyStr) (m package : Members) :
    Except Exn (Option PyStr) :=
  if category = lit "product_decision" then
    .ok (identityBindingError (.str (lit "L2")) (get (lit "decision_id") m)
      (get (lit "decision_scope") m) package)
  else if category ∈ operationCategories then operationBindingError C category m package
  else if category = lit "operational_action" then
    .ok (identityBindingError (.str (lit "Operational")) (get (lit "action_id") m)
      (get (lit "action_scope") m) package)
  else if category = lit "necessary_uat" then
    .ok (identityBindingError (.str (lit "UAT")) (get (lit "uat_id") m)
      (get (lit "uat_scope") m) package)
  else
    .ok (identityBindingError (.str risk) (get (lit "decision_id") package)
      (get (lit "scope_of_approval") package) package)

end SddGov.Autonomy
