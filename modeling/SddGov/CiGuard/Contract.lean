import SddGov.Python.Exn
import SddGov.Python.Lines

/-!
# The contract of the workflow check

`_validate_contract` reads the contract the candidate brought along and lists
what is wrong with it. All but three of its tests look at the type of a value
first. The profile and two fields of `hosted` are looked up in a set as they
come, and a list or an object cannot be: then no list of errors is made
(`validateContract_isOk`).
-/

namespace SddGov.CiGuard

open SddGov.Python

/-- The one message, unless the test holds. -/
def errorUnless (c : Bool) (message : PyStr) : List PyStr := if c then [] else [message]

@[simp] theorem errorUnless_eq_nil {c : Bool} {message : PyStr} :
    errorUnless c message = [] ↔ c = true := by
  cases c <;> simp [errorUnless]

/-- A value Python can put in a set. -/
def isHashable : Json → Bool
  | .arr _ => false
  | .obj _ => false
  | _ => true

@[simp] theorem memberOfSet_isOk (value : Json) (names : List PyStr) :
    (memberOfSet value names).isOk = isHashable value := by
  cases value <;> rfl

def stringItems : List Json → Option (List PyStr)
  | [] => some []
  | .str s :: rest => (stringItems rest).map (s :: ·)
  | _ => none

/-- The strings of a list of strings. -/
def strings? : Json → Option (List PyStr)
  | .arr items => stringItems items
  | _ => none

/-- A list of strings is one. -/
theorem stringItems_eq {items : List Json} {texts : List PyStr}
    (h : stringItems items = some texts) :
    items = texts.map .str := by
  induction items generalizing texts with
  | nil =>
    obtain rfl := Option.some.inj h
    rfl
  | cons item rest ih =>
    cases item with
    | str s =>
      obtain ⟨others, hothers, rfl⟩ := Option.map_eq_some_iff.mp h
      rw [ih hothers]
      rfl
    | _ => exact absurd h (by simp [stringItems])

theorem eq_of_strings? {value : Json} {texts : List PyStr} (h : strings? value = some texts) :
    value = .arr (texts.map .str) := by
  cases value with
  | arr items => rw [stringItems_eq h]
  | _ => exact absurd h (by simp [strings?])

def profiles : List PyStr := ["solo-fast", "team-standard", "regulated"].map lit

def fullMatrixValues : List PyStr :=
  ["manual", "ready_for_review", "manual_or_ready_for_review", "release"].map lit

def postMergeVerificationValues : List PyStr := ["manual_only", "automatic"].map lit

/-- The default of `local_green.command_timeout_seconds`. -/
def defaultCommandTimeoutSeconds : Int := 600

/-! ## Local Green -/

def isString : Json → Bool
  | .str _ => true
  | _ => false

/-- The names of an object are strings, so only its values are looked at. -/
def isEnvironment : Json → Bool
  | .obj m => m.all fun entry => isString entry.2
  | _ => false

def isArgument : Json → Bool
  | .str s => !s.isEmpty
  | _ => false

def isCommand : Json → Bool
  | .arr arguments => !arguments.isEmpty && arguments.all isArgument
  | _ => false

def commandsErrors : Json → List PyStr
  | .arr (command :: commands) =>
    errorUnless ((command :: commands).all isCommand)
      (lit "each local_green command must be a non-empty string array")
  | _ => [lit "local_green.commands must be a non-empty array"]

def isCommandTimeout : Json → Bool
  | .int n => 1 ≤ n && n ≤ 3600
  | _ => false

def localGreenErrors : Json → List PyStr
  | .obj m =>
    errorUnless (isEnvironment ((lookup (lit "environment") m).getD (.obj [])))
        (lit "local_green.environment must map strings to strings")
      ++ commandsErrors (get (lit "commands") m)
      ++ errorUnless
        (isCommandTimeout
          ((lookup (lit "command_timeout_seconds") m).getD (.int defaultCommandTimeoutSeconds)))
        (lit "local_green.command_timeout_seconds must be an integer between 1 and 3600")
  | _ => [lit "local_green must be an object"]

/-! ## The hosted budget -/

/-- The limits with their minimum. -/
def hostedLimits : List (String × Nat) :=
  [("max_runs_per_work_package", 1), ("max_reruns_per_revision", 0), ("expected_minutes", 1)]

def isIntegerFrom (minimum : Nat) : Json → Bool
  | .int n => (minimum : Int) ≤ n
  | _ => false

/-- `hosted.get("post_merge_verification", "automatic")` -/
def postMergeVerification (hosted : Members) : Json :=
  (lookup (lit "post_merge_verification") hosted).getD (.str (lit "automatic"))

def hostedErrors : Json → Except Exn (List PyStr)
  | .obj m => do
    let matrixKnown ← memberOfSet (get (lit "full_matrix") m) fullMatrixValues
    let verificationKnown ← memberOfSet (postMergeVerification m) postMergeVerificationValues
    pure (hostedLimits.flatMap (fun (key, minimum) =>
          errorUnless (isIntegerFrom minimum (get (lit key) m))
            (lit "hosted." ++ lit key ++ lit " must be an integer >= " ++ natText minimum))
      ++ errorUnless matrixKnown (lit "hosted.full_matrix is invalid")
      ++ errorUnless verificationKnown (lit "hosted.post_merge_verification is invalid"))
  | _ => pure [lit "hosted must be an object"]

/-! ## The workflow controls -/

def requiredControls : List String :=
  ["require_concurrency", "cancel_in_progress", "require_job_timeouts",
    "require_read_only_permissions",
    "skip_draft_pull_requests"]

def isBoolean : Json → Bool
  | .bool _ => true
  | _ => false

/-- `controls.get("exempt_workflows", [])` -/
def exemptWorkflows (controls : Members) : Json :=
    (lookup (lit "exempt_workflows") controls).getD (.arr [])

/-- `controls.get("write_permission_exceptions", {})` -/
def writePermissionExceptions (controls : Members) : Json :=
  (lookup (lit "write_permission_exceptions") controls).getD (.obj [])

def exemptionErrors (value : Json) : List PyStr :=
  match strings? value with
  | none => [lit "workflow_controls.exempt_workflows must be a string array"]
  | some items =>
    if items.any isBlank then
      [lit "workflow_controls.exempt_workflows must contain non-empty strings"]
    else errorUnless (decide items.Nodup)
      (lit "workflow_controls.exempt_workflows must not contain duplicates")

/-- A non-empty array of unique permission names. -/
def isPermissionList (value : Json) : Bool :=
  match strings? value with
  | none => false
  | some permissions =>
    !permissions.isEmpty && permissions.all (fun s => !isBlank s) && decide permissions.Nodup

/-- What every message about the exceptions starts with. -/
def exceptionsField : PyStr := lit "workflow_controls.write_permission_exceptions"

def jobExceptionErrors (workflowName : PyStr) : PyStr × Json → List PyStr
  | (jobName, permissions) =>
    if isBlank jobName then
      [exceptionsField ++ lit "." ++ workflowName ++ lit " job names must be non-empty strings"]
    else errorUnless (isPermissionList permissions)
      (exceptionsField ++ lit "." ++ workflowName ++ lit "." ++ jobName
        ++ lit " must be a non-empty array of unique permission names")

def workflowExceptionErrors : PyStr × Json → List PyStr
  | (workflowName, jobExceptions) =>
    if isBlank workflowName then [exceptionsField
      ++ lit " workflow names must be non-empty strings"]
    else
      match jobExceptions with
      | .obj [] => [exceptionsField ++ lit "." ++ workflowName ++ lit " must name at least one job"]
      | .obj jobs => jobs.flatMap (jobExceptionErrors workflowName)
      | _ => [exceptionsField ++ lit "." ++ workflowName ++ lit " must be an object"]

def permissionExceptionErrors (exemptions : Json) : Json → List PyStr
  | .obj workflows =>
    workflows.flatMap workflowExceptionErrors
      ++ (sortedSet (((strings? exemptions).getD []).filter (hasKey · workflows))).map
        (lit "exempt workflow must not declare write permission exceptions: " ++ ·)
  | _ => [exceptionsField ++ lit " must be an object"]

def controlsErrors : Json → List PyStr
  | .obj m =>
    requiredControls.flatMap (fun key =>
        errorUnless (isBoolean (get (lit key) m)) (lit "workflow_controls." ++ lit key
          ++ lit " must be boolean"))
      ++ exemptionErrors (exemptWorkflows m)
      ++ permissionExceptionErrors (exemptWorkflows m) (writePermissionExceptions m)
  | _ => [lit "workflow_controls must be an object"]

/-! ## The contract -/

/-- `_validate_contract`. -/
def validateContract (contract : Members) : Except Exn (List PyStr) := do
  let profileKnown ← memberOfSet (get (lit "profile") contract) profiles
  let hosted ← hostedErrors (get (lit "hosted") contract)
  pure (errorUnless (pyEq (get (lit "schema_version") contract) (.str (lit "1.0")))
      (lit "CI Cost Guard schema_version must be 1.0")
    ++ errorUnless profileKnown (lit "CI Cost Guard profile is invalid")
    ++ localGreenErrors (get (lit "local_green") contract)
    ++ hosted
    ++ controlsErrors (get (lit "workflow_controls") contract))

/-- The values that are looked up in a set are no lists and no objects. -/
structure ContractHashable (contract : Members) : Prop where
  profile : isHashable (get (lit "profile") contract) = true
  hosted : ∀ m, get (lit "hosted") contract = .obj m →
    isHashable (get (lit "full_matrix") m) = true ∧ isHashable (postMergeVerification m) = true

theorem except_isOk_iff {ε α : Type} {x : Except ε α} : x.isOk = true ↔ ∃ a, x = .ok a := by
  cases x with
  | error e => simp [Except.isOk, Except.toBool]
  | ok a => simp [Except.isOk, Except.toBool]

theorem except_bind_isOk {ε α β : Type} {x : Except ε α} {f : α → Except ε β} :
    (x >>= f).isOk = true ↔ ∃ a, x = .ok a ∧ (f a).isOk = true := by
  cases x with
  | error e => simp [Bind.bind, Except.bind, Except.isOk, Except.toBool]
  | ok a => simp [Bind.bind, Except.bind]

/-- The checks of `hosted` come to an end exactly where the two values looked up in a set are
hashable. -/
theorem hostedErrors_isOk (value : Json) : (hostedErrors value).isOk = true ↔
    ∀ m, value = .obj m → isHashable (get (lit "full_matrix") m) = true
    ∧ isHashable (postMergeVerification m) = true := by
  cases value with
  | obj m =>
    have hmatrix := memberOfSet_isOk (get (lit "full_matrix") m) fullMatrixValues
    have hpost := memberOfSet_isOk (postMergeVerification m) postMergeVerificationValues
    unfold hostedErrors
    constructor
    · intro h other hother
      obtain rfl := Json.obj.inj hother
      obtain ⟨known, hknown, h⟩ := except_bind_isOk.mp h
      obtain ⟨verified, hverified, -⟩ := except_bind_isOk.mp h
      exact ⟨hmatrix ▸ except_isOk_iff.mpr ⟨_, hknown⟩, hpost ▸ except_isOk_iff.mpr ⟨_, hverified⟩⟩
    · intro h
      obtain ⟨hm, hp⟩ := h m rfl
      obtain ⟨known, hknown⟩ := except_isOk_iff.mp (hmatrix.trans hm)
      obtain ⟨verified, hverified⟩ := except_isOk_iff.mp (hpost.trans hp)
      exact except_bind_isOk.mpr ⟨known, hknown, except_bind_isOk.mpr ⟨verified, hverified, rfl⟩⟩
  | _ => exact ⟨fun _ m hm => absurd hm (by simp), fun _ => rfl⟩

/-- The errors are listed exactly for a contract whose three set members can be looked up. -/
theorem validateContract_isOk (contract : Members) :
    (validateContract contract).isOk = true ↔ ContractHashable contract := by
  have hprofile := memberOfSet_isOk (get (lit "profile") contract) profiles
  unfold validateContract
  constructor
  · intro h
    obtain ⟨known, hknown, h⟩ := except_bind_isOk.mp h
    obtain ⟨hosted, hhosted, -⟩ := except_bind_isOk.mp h
    exact ⟨hprofile ▸ except_isOk_iff.mpr ⟨_, hknown⟩,
      (hostedErrors_isOk _).mp (except_isOk_iff.mpr ⟨_, hhosted⟩)⟩
  · intro h
    obtain ⟨known, hknown⟩ := except_isOk_iff.mp (hprofile.trans h.profile)
    obtain ⟨hosted, hhosted⟩ := except_isOk_iff.mp ((hostedErrors_isOk _).mpr h.hosted)
    exact except_bind_isOk.mpr ⟨known, hknown, except_bind_isOk.mpr ⟨hosted, hhosted, rfl⟩⟩

/-! ## A contract without errors -/

theorem controlsErrors_nil {value : Json} (h : controlsErrors value = []) : ∃ m, value = .obj m
    ∧ permissionExceptionErrors (exemptWorkflows m) (writePermissionExceptions m) = [] := by
  cases value with
  | obj m => exact ⟨m, rfl, (List.append_eq_nil_iff.mp h).2⟩
  | _ => exact absurd h (by simp [controlsErrors])

/-- Without an error every entry is well formed, and no exempt workflow has an exception. -/
theorem permissionExceptionErrors_nil {exemptions : Json} {workflows : Members}
    (h : permissionExceptionErrors exemptions (.obj workflows) = []) :
    (∀ entry ∈ workflows, workflowExceptionErrors entry = [])
      ∧ ∀ name ∈ (strings? exemptions).getD [], hasKey name workflows = false := by
  obtain ⟨hentries, hexempt⟩ := List.append_eq_nil_iff.mp h
  refine ⟨List.flatMap_eq_nil_iff.mp hentries, ?_⟩
  intro name hname
  by_contra hkey
  have hmem : name ∈ ((strings? exemptions).getD []).filter (hasKey · workflows) :=
    List.mem_filter.mpr ⟨hname, by simpa using hkey⟩
  rw [List.map_eq_nil_iff] at hexempt
  exact absurd (mem_sortedSet.mpr hmem) (by simp [hexempt])

/-- Declared permissions are a list of strings. -/
theorem workflowExceptionErrors_nil {name jobName : PyStr} {jobs : Members} {value : Json}
    (h : workflowExceptionErrors (name, .obj jobs) = []) (hjob : (jobName, value) ∈ jobs) :
    ∃ texts, strings? value = some texts := by
  obtain ⟨first, rest, rfl⟩ := List.exists_cons_of_ne_nil (List.ne_nil_of_mem hjob)
  rw [workflowExceptionErrors] at h
  split at h
  · exact absurd h (by simp)
  · have hentry := List.flatMap_eq_nil_iff.mp h _ hjob
    rw [jobExceptionErrors] at hentry
    split at hentry
    · exact absurd hentry (by simp)
    · have hlist := errorUnless_eq_nil.mp hentry
      unfold isPermissionList at hlist
      cases htexts : strings? value with
      | none => exact absurd hlist (by simp [htexts])
      | some texts => exact ⟨texts, rfl⟩
  · simp

end SddGov.CiGuard
