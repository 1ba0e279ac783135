import SddGov.CiGuard.Contract
import SddGov.CiGuard.DraftGuard

/-!
# One workflow under the check

`_inspect_workflow` over the document the YAML loader makes of a file: mappings,
lists and scalars of any shape. Each test looks at the type of what it reads,
except for the values of a `permissions` mapping: they are looked up in a set,
and a list or a mapping among them is the one thing that raises
(`permissionErrors_isOk`, `inspectDocument_isOk`).
-/

namespace SddGov.CiGuard

open SddGov.Python

/-! ## Documents -/

/-- A scalar. A float, a date or bytes are equal to nothing the check compares with. -/
inductive Scalar
  | null
  | bool (b : Bool)
  | int (n : Int)
  | str (s : PyStr)
  | other
  deriving DecidableEq

/-- What the loader makes of a text. The keys of a mapping are scalars, each there once. -/
inductive Yaml
  | scalar (s : Scalar)
  | seq (items : List Yaml)
  | map (members : List (Scalar × Yaml))

instance : Inhabited Yaml := ⟨.scalar .null⟩

abbrev Mapping := List (Scalar × Yaml)

/-- Why the loader made nothing of a text: a `YAMLError` with its own text, which the check reports,
or any other exception, which it does not catch. -/
inductive LoadError
  | yaml (text : PyStr)
  | other (exn : Exn)

/-- The value of a name, where the mapping has it. -/
def find? (key : PyStr) : Mapping → Option Yaml
  | [] => none
  | (k, v) :: rest => if k = .str key then some v else find? key rest

/-- `value.get(key)` -/
def field (key : String) (m : Mapping) : Yaml := (find? (lit key) m).getD (.scalar .null)

/-- `value == text` -/
def isText (text : String) : Yaml → Bool
  | .scalar (.str s) => s == lit text
  | _ => false

/-- A string that is not blank. -/
def isFilled : Yaml → Bool
  | .scalar (.str s) => !isBlank s
  | _ => false

/-- A value Python can put in a set. -/
def Yaml.isHashable : Yaml → Bool
  | .scalar _ => true
  | _ => false

/-- `value in names` for a set of strings. -/
def yamlMemberOfSet (value : Yaml) (names : List String) : Except Exn Bool :=
  match value with
  | .scalar (.str s) => .ok ((names.map lit).contains s)
  | .scalar _ => .ok false
  | _ => .error .type

/-! ## Errors of many items -/

/-- The errors of each item, one item after the other. -/
def collect {α : Type} (errors : α → Except Exn (List PyStr)) : List α → Except Exn (List PyStr)
  | [] => .ok []
  | a :: rest => do
    let first ← errors a
    let others ← collect errors rest
    pure (first ++ others)

/-- Collecting comes to an end if every item does. -/
theorem collect_isOk {α : Type} {errors : α → Except Exn (List PyStr)} {items : List α} :
    (collect errors items).isOk = true ↔ ∀ a ∈ items, (errors a).isOk = true := by
  induction items with
  | nil => simp [collect, Except.isOk, Except.toBool]
  | cons a rest ih =>
    rw [List.forall_mem_cons, collect, except_bind_isOk, ← ih]
    constructor
    · rintro ⟨first, hfirst, h⟩
      obtain ⟨others, hothers, -⟩ := except_bind_isOk.mp h
      exact ⟨except_isOk_iff.mpr ⟨_, hfirst⟩, except_isOk_iff.mpr ⟨_, hothers⟩⟩
    · rintro ⟨hfirst, hothers⟩
      obtain ⟨first, hfirst⟩ := except_isOk_iff.mp hfirst
      obtain ⟨others, hothers⟩ := except_isOk_iff.mp hothers
      exact ⟨first, hfirst, except_bind_isOk.mpr ⟨others, hothers, rfl⟩⟩

/-- Collecting finds nothing if no item has an error. -/
theorem collect_eq_nil {α : Type} {errors : α → Except Exn (List PyStr)} {items : List α} :
    collect errors items = .ok [] ↔ ∀ a ∈ items, errors a = .ok [] := by
  induction items with
  | nil => simp [collect]
  | cons a rest ih =>
    rw [List.forall_mem_cons, collect, except_bind_ok, ← ih]
    constructor
    · rintro ⟨first, hfirst, h⟩
      obtain ⟨others, hothers, h⟩ := except_bind_ok.mp h
      obtain ⟨rfl, rfl⟩ := List.append_eq_nil_iff.mp (Except.ok.inj h)
      exact ⟨hfirst, hothers⟩
    · rintro ⟨hfirst, hothers⟩
      exact ⟨[], hfirst, except_bind_ok.mpr ⟨[], hothers, rfl⟩⟩

/-! ## Permissions -/

/-- The error of one entry of a permissions mapping. -/
def permissionEntryErrors (label : PyStr) (allowed : List PyStr) :
    Scalar × Yaml → Except Exn (List PyStr)
  | (.str key, permission) => do
    let harmless ← yamlMemberOfSet permission ["read", "none"]
    pure (errorUnless (harmless || (isText "write" permission && allowed.contains key))
      (label ++ lit " permissions must not grant write access"))
  | _ => pure [label ++ lit " permissions must not grant write access"]

/-- `_permission_errors`. -/
def permissionErrors (value : Yaml) (label : PyStr) (requireContents : Bool)
    (allowed : List PyStr) :
    Except Exn (List PyStr) :=
  match value with
  | .map members => do
    let entries ← collect (permissionEntryErrors label allowed) members
    pure (entries
      ++ errorUnless (!requireContents || isText "read" (field "contents" members))
        (label ++ lit " permissions must include contents: read")
      ++ (sortedSet allowed).flatMap fun permission =>
        errorUnless (isText "write" ((find? permission members).getD (.scalar .null)))
          (label ++ lit " write permission exception is unused: " ++ permission))
  | _ => pure [label ++ lit " permissions must be a mapping"]

/-- No value of a named permission is a list or a mapping. -/
def PermissionsHashable (value : Yaml) : Prop :=
  ∀ members, value = .map members → ∀ key permission, (.str key, permission) ∈ members →
    permission.isHashable = true

theorem yamlMemberOfSet_isOk (value : Yaml) (names : List String) :
    (yamlMemberOfSet value names).isOk = value.isHashable := by
  cases value with
  | scalar s => cases s <;> rfl
  | seq items => rfl
  | map members => rfl

/-- The value under a name is looked up in a set. -/
theorem permissionEntryErrors_isOk {label : PyStr} {allowed : List PyStr} {entry : Scalar × Yaml} :
    (permissionEntryErrors label allowed entry).isOk = true ↔
      ∀ key, entry.1 = .str key → entry.2.isHashable = true := by
  obtain ⟨key, permission⟩ := entry
  cases key with
  | str key =>
    have hset := yamlMemberOfSet_isOk permission ["read", "none"]
    rw [permissionEntryErrors, except_bind_isOk]
    constructor
    · rintro ⟨harmless, h, -⟩ _ _
      exact hset ▸ except_isOk_iff.mpr ⟨_, h⟩
    · intro h
      obtain ⟨harmless, hharmless⟩ := except_isOk_iff.mp (hset.trans (h key rfl))
      exact ⟨harmless, hharmless, rfl⟩
  | _ => exact ⟨fun _ key hkey => absurd hkey (by simp), fun _ => rfl⟩

/-- The check of a mapping comes to an end if its values can be looked up. -/
theorem permissionErrors_isOk {value : Yaml} {label : PyStr} {requireContents : Bool}
    {allowed : List PyStr} :
    (permissionErrors value label requireContents allowed).isOk = true ↔
    PermissionsHashable value := by
  cases value with
  | map members =>
    rw [permissionErrors, except_bind_isOk]
    have hentries : (collect (permissionEntryErrors label allowed) members).isOk = true ↔
        ∀ entry ∈ members, (permissionEntryErrors label allowed entry).isOk = true := collect_isOk
    constructor
    · rintro ⟨entries, h, -⟩ other hother key permission hmem
      obtain rfl := Yaml.map.inj hother
      exact permissionEntryErrors_isOk.mp (hentries.mp (except_isOk_iff.mpr ⟨_, h⟩) _ hmem) key rfl
    · intro h
      have hall := hentries.mpr fun entry hentry => permissionEntryErrors_isOk.mpr fun key hkey =>
        h members rfl key entry.2 (hkey ▸ hentry)
      obtain ⟨entries, hentries⟩ := except_isOk_iff.mp hall
      exact ⟨entries, hentries, rfl⟩
  | _ => exact ⟨fun _ members hmembers => absurd hmembers (by simp), fun _ => rfl⟩

/-- Every value of the mapping is harmless, or a write that is allowed. -/
structure Restricted (members : Mapping) (allowed : List PyStr) : Prop where
  entries : ∀ key permission, (key, permission) ∈ members → ∃ name, key = .str name
    ∧ (isText "read" permission = true ∨ isText "none" permission = true
      ∨ (isText "write" permission = true ∧ name ∈ allowed))
  used : ∀ permission ∈ allowed, ∃ value, find? permission members = some value
    ∧ isText "write" value = true

/-- An entry without errors reads, denies, or writes what is allowed. -/
theorem permissionEntryErrors_nil {label : PyStr} {allowed : List PyStr} {key : Scalar}
    {permission : Yaml}
    (h : permissionEntryErrors label allowed (key, permission) = .ok []) : ∃ name, key = .str name
      ∧ (isText "read" permission = true ∨ isText "none" permission = true
        ∨ (isText "write" permission = true ∧ name ∈ allowed)) := by
  cases key with
  | str name =>
    refine ⟨name, rfl, ?_⟩
    obtain ⟨harmless, hset, h⟩ := except_bind_ok.mp h
    have htest := errorUnless_eq_nil.mp (Except.ok.inj h)
    simp only [Bool.or_eq_true, Bool.and_eq_true, List.contains_iff_mem] at htest
    rcases htest with rfl | hwrite
    · cases permission with
      | scalar s =>
        cases s with
        | str s =>
          have hnames := Except.ok.inj hset
          simp only [List.map_cons, List.map_nil, List.contains_iff_mem, List.mem_cons,
            List.not_mem_nil, or_false] at hnames
          rcases hnames with rfl | rfl
          · exact .inl (by simp [isText])
          · exact .inr (.inl (by simp [isText]))
        | _ => exact absurd (Except.ok.inj hset) (by simp)
      | _ => exact absurd hset (by simp [yamlMemberOfSet])
    · exact .inr (.inr hwrite)
  | _ => exact absurd (Except.ok.inj h) (by simp)

/-- A value without errors is a mapping that grants no more than it may, and all it may. -/
theorem permissionErrors_nil {value : Yaml} {label : PyStr} {requireContents : Bool}
    {allowed : List PyStr}
    (h : permissionErrors value label requireContents allowed = .ok []) :
    ∃ members, value = .map members
      ∧ Restricted members allowed ∧ (requireContents = true →
        isText "read" (field "contents" members) = true) := by
  cases value with
  | map members =>
    obtain ⟨entries, hentries, h⟩ := except_bind_ok.mp h
    simp only [pure, Except.pure, Except.ok.injEq, List.append_eq_nil_iff, errorUnless_eq_nil,
      Bool.or_eq_true,
      Bool.not_eq_true', List.flatMap_eq_nil_iff] at h
    obtain ⟨⟨rfl, hcontents⟩, hused⟩ := h
    refine ⟨members, rfl, ⟨?_, ?_⟩, ?_⟩
    · intro key permission hmem
      exact permissionEntryErrors_nil (collect_eq_nil.mp hentries _ hmem)
    · intro permission hallowed
      have hwrite := hused permission (mem_sortedSet.mpr hallowed)
      cases hfind : find? permission members with
      | none => exact absurd hwrite (by simp [hfind, isText])
      | some v => exact ⟨v, rfl, by simpa [hfind] using hwrite⟩
    · intro hrequired
      rcases hcontents with hoff | hread
      · exact absurd hrequired (by simp [hoff])
      · exact hread
  | _ => exact absurd (Except.ok.inj h) (by simp)

/-! ## Events and jobs -/

/-- The strings of a sequence of strings. -/
def yamlStrings : List Yaml → Option (List PyStr)
  | [] => some []
  | .scalar (.str s) :: rest => (yamlStrings rest).map (s :: ·)
  | _ => none

/-- `_event_mapping`: a name without a configuration has the null one. -/
def eventMapping : Yaml → Mapping
  | .scalar (.str name) => [(.str name, .scalar .null)]
  | .seq items => ((yamlStrings items).getD []).map fun name => (.str name, .scalar .null)
  | .map members => members
  | _ => []

def hasEvent (events : Mapping) (name : String) : Bool := (find? (lit name) events).isSome

/-- `_valid_runner`. -/
def validRunner : Yaml → Bool
  | .scalar (.str s) => !isBlank s
  | .seq items => !items.isEmpty && items.all isFilled
  | _ => false

/-- The jobs that are mappings with a name. -/
def namedJobs (jobs : Mapping) : List (PyStr × Mapping) :=
  jobs.filterMap fun
    | (.str name, .map job) => some (name, job)
    | _ => none

/-- The value of `jobs`, where it is a mapping. -/
def jobsMapping (document : Mapping) : Option Mapping :=
  match field "jobs" document with
  | .map jobs => some jobs
  | _ => none

/-- `jobs` of `_inspect_workflow`. -/
def jobsOf (document : Mapping) : List (PyStr × Mapping) :=
    namedJobs ((jobsMapping document).getD [])

/-! ## What is read by name -/

mutual
/-- The value as the checks for drafts read it: a mapping by its string names. -/
def Yaml.toJson : Yaml → Json
  | .scalar (.bool b) => .bool b
  | .scalar (.int n) => .int n
  | .scalar (.str s) => .str s
  | .scalar _ => .null
  | .seq items => .arr (Yaml.toJsonList items)
  | .map members => .obj (Yaml.toMembers members)

def Yaml.toJsonList : List Yaml → List Json
  | [] => []
  | item :: rest => item.toJson :: Yaml.toJsonList rest

def Yaml.toMembers : List (Scalar × Yaml) → Members
  | [] => []
  | (.str name, value) :: rest => (name, value.toJson) :: Yaml.toMembers rest
  | _ :: rest => Yaml.toMembers rest
end

/-! ## The checks of one workflow -/

/-- The exceptions of a workflow, `{}` where they are no object. -/
def jobWriteExceptions : Json → Members
  | .obj m => m
  | _ => []

/-- The permissions that are declared for a job. -/
def allowedWrites (exceptions : Members) (jobName : PyStr) : List PyStr :=
  (strings? ((lookup jobName exceptions).getD (.arr []))).getD []

def jobPermissionErrors (exceptions : Members) : PyStr × Mapping → Except Exn (List PyStr)
  | (jobName, job) =>
    match find? (lit "permissions") job with
    | some value => permissionErrors value (lit "job " ++ jobName) false
        (allowedWrites exceptions jobName)
    | none =>
      pure (errorUnless (allowedWrites exceptions jobName).isEmpty
        (lit "job " ++ jobName
          ++ lit " write permission exception requires an explicit permissions mapping"))

/-- The permission checks, where the contract asks for them and there is a job. -/
def workflowPermissionErrors (document : Mapping) (controls exceptions : Members) :
    Except Exn (List PyStr) :=
  if truthy (get (lit "require_read_only_permissions") controls)
    && !(jobsOf document).isEmpty then do
    let default ← permissionErrors (field "permissions" document) (lit "default") true []
    let jobs ← collect (jobPermissionErrors exceptions) (jobsOf document)
    pure (default ++ jobs)
  else pure []

def concurrencyErrors (document : Mapping) (controls : Members) : List PyStr :=
  if !(jobsOf document).isEmpty && truthy (get (lit "require_concurrency") controls) then
    match field "concurrency" document with
    | .map concurrency =>
      errorUnless (isFilled (field "group" concurrency))
        (lit "hosted workflow concurrency requires a non-empty group")
    | _ => [lit "hosted workflow requires concurrency"]
  else []

/-- `concurrency.get("cancel-in-progress") is True`, for a mapping. -/
def cancelsStaleRuns : Yaml → Bool
  | .map concurrency =>
    match field "cancel-in-progress" concurrency with
    | .scalar (.bool b) => b
    | _ => false
  | _ => false

def isJobTimeout : Yaml → Bool
  | .scalar (.int n) => 1 ≤ n && n ≤ 360
  | _ => false

def timeoutErrors (controls : Members) (jobs : List (PyStr × Mapping)) : List PyStr :=
  if truthy (get (lit "require_job_timeouts") controls) then
    jobs.flatMap fun (jobName, job) =>
      errorUnless (isJobTimeout (field "timeout-minutes" job))
        (lit "hosted job " ++ jobName ++ lit " requires timeout-minutes between 1 and 360")
  else []

/-- `automatic`: an event that starts runs by itself. -/
def isAutomatic (events : Mapping) : Bool :=
  ["pull_request", "pull_request_target", "push", "schedule"].any (hasEvent events)

/-- What is reported of a workflow. -/
structure WorkflowReport where
  workflow : PyStr
  automatic : Bool
  hostedJobs : List PyStr
  exempt : Bool
  deriving DecidableEq

/-- The checks that look at the events and the jobs. -/
def jobErrors (document : Mapping) (hosted exceptions : Members) : List PyStr :=
  let jobs := jobsOf document
  errorUnless (!(postMergeVerification hosted == .str (lit "manual_only")
        && hasEvent (eventMapping (field "on" document)) "push"))
      (lit "manual-only post-merge verification forbids automatic push")
    ++ errorUnless (jobsMapping document).isSome (lit "jobs must be a mapping")
    ++ errorUnless (jobs.length == ((jobsMapping document).getD []).length)
      (lit "every job must be a named mapping with an explicit runner")
    ++ jobs.flatMap (fun (jobName, job) =>
      errorUnless (validRunner (field "runs-on" job))
        (lit "job " ++ jobName ++ lit " has an invalid runs-on value"))
    ++ (sortedSet ((keys exceptions).filter fun name => !(jobs.map Prod.fst).contains name)).map
      (lit "write permission exception references unknown job " ++ ·)

/-- `_inspect_workflow` of a document. -/
def inspectDocument (workflowName : PyStr) (document : Mapping)
    (controls hosted exceptions : Members) :
    Except Exn (List PyStr) := do
  let events := eventMapping (field "on" document)
  let jobs := jobsOf document
  let named := (workflowName ++ lit ": " ++ · : PyStr → PyStr)
  let permissions ← workflowPermissionErrors document controls exceptions
  pure ((jobErrors document hosted exceptions
      ++ permissions
      ++ concurrencyErrors document controls
      ++ errorUnless (!(isAutomatic events && truthy (get (lit "cancel_in_progress") controls))
          || cancelsStaleRuns (field "concurrency" document))
        (lit "automatic workflow must cancel stale runs")).map named
    ++ (if truthy (get (lit "skip_draft_pull_requests") controls) then
        draftErrors workflowName (Yaml.toMembers events)
          (jobs.map fun (jobName, job) => (jobName, .obj (Yaml.toMembers job)))
      else [])
    ++ (timeoutErrors controls jobs).map named)

/-- `_inspect_workflow`; `load` is `yaml.load`. -/
def inspectWorkflow (load : PyStr → Except LoadError Yaml) (workflowName source : PyStr)
    (controls hosted : Members)
    (exceptions : Json) : Except Exn (List PyStr × WorkflowReport) :=
  let unread : WorkflowReport := ⟨workflowName, false, [], false⟩
  match load source with
  | .error (.yaml text) =>
      pure ([workflowName ++ lit ": workflow YAML is invalid: " ++ text], unread)
  | .error (.other exn) => .error exn
  | .ok (.map document) => do
    let errors ← inspectDocument workflowName document controls hosted
      (jobWriteExceptions exceptions)
    pure (errors,
      ⟨workflowName, isAutomatic (eventMapping (field "on" document)),
        sortedSet ((jobsOf document).map Prod.fst), false⟩)
  | .ok _ => pure ([workflowName ++ lit ": workflow must be a YAML mapping"], unread)

/-! ## Where a workflow is read to the end -/

/-- The permissions mappings the checks of a document look at. -/
inductive Inspected (document : Mapping) : Yaml → Prop
  | default : Inspected document (field "permissions" document)
  | job {jobName : PyStr} {job : Mapping} {value : Yaml} (hjob : (jobName, job) ∈ jobsOf document)
      (hvalue : find? (lit "permissions") job = some value) : Inspected document value

/-- The same for the permissions of a job, where it has them. -/
theorem jobPermissionErrors_isOk {exceptions : Members} {entry : PyStr × Mapping} :
    (jobPermissionErrors exceptions entry).isOk = true ↔
      ∀ value, find? (lit "permissions") entry.2 = some value → PermissionsHashable value := by
  obtain ⟨jobName, job⟩ := entry
  rw [jobPermissionErrors]
  split
  · next value hvalue =>
    rw [permissionErrors_isOk]
    constructor
    · intro h other hother
      rw [hvalue] at hother
      exact Option.some.inj hother ▸ h
    · intro h
      exact h value hvalue
  · next hnone =>
      exact ⟨fun _ value hvalue => absurd (hnone.symm.trans hvalue) (by simp), fun _ => rfl⟩

/-- The checks of a document end with a list of errors exactly where the permissions they look at
can be looked up. -/
theorem inspectDocument_isOk {workflowName : PyStr} {document : Mapping}
    {controls hosted exceptions : Members} :
    (inspectDocument workflowName document controls hosted exceptions).isOk = true ↔
      (truthy (get (lit "require_read_only_permissions") controls) = true → jobsOf document ≠ [] →
        ∀ value, Inspected document value → PermissionsHashable value) := by
  have hpass : (inspectDocument workflowName document controls hosted exceptions).isOk
      = (workflowPermissionErrors document controls exceptions).isOk := by
    unfold inspectDocument
    cases workflowPermissionErrors document controls exceptions <;> rfl
  rw [hpass]
  unfold workflowPermissionErrors
  split
  · next htest =>
    simp only [Bool.and_eq_true, Bool.not_eq_true', List.isEmpty_eq_false_iff] at htest
    rw [except_bind_isOk]
    constructor
    · rintro ⟨default, hdefault, h⟩ - - value hvalue
      obtain ⟨jobs, hjobs, -⟩ := except_bind_isOk.mp h
      cases hvalue with
      | default => exact permissionErrors_isOk.mp (except_isOk_iff.mpr ⟨_, hdefault⟩)
      | job hjob hvalue =>
        have hall := collect_isOk.mp (except_isOk_iff.mpr ⟨_, hjobs⟩)
        exact jobPermissionErrors_isOk.mp (hall _ hjob) value hvalue
    · intro h
      have hvalues := h htest.1 htest.2
      obtain ⟨default, hdefault⟩ := except_isOk_iff.mp
        (permissionErrors_isOk.mpr (hvalues _ .default))
      have hall : (collect (jobPermissionErrors exceptions) (jobsOf document)).isOk = true :=
        collect_isOk.mpr fun entry hentry => jobPermissionErrors_isOk.mpr fun value hvalue =>
          hvalues value (.job hentry hvalue)
      obtain ⟨jobs, hjobs⟩ := except_isOk_iff.mp hall
      exact ⟨default, hdefault, except_bind_isOk.mpr ⟨jobs, hjobs, rfl⟩⟩
  · next htest =>
    refine ⟨fun _ hon hjobs => absurd ?_ htest, fun _ => rfl⟩
    simpa [hon] using hjobs

/-! ## A workflow without errors -/

/-- Where every job is a mapping with a name, each entry of `jobs` is one of them. -/
theorem namedJobs_complete {jobs : Mapping} (h : (namedJobs jobs).length = jobs.length)
    {key : Scalar} {value : Yaml}
    (hmem : (key, value) ∈ jobs) :
    ∃ jobName job, key = .str jobName ∧ value = .map job ∧ (jobName, job) ∈ namedJobs jobs := by
  have hsome := List.filterMap_length_eq_length.mp h _ hmem
  cases key with
  | str jobName =>
    cases value with
    | map job => exact ⟨jobName, job, rfl, rfl, List.mem_filterMap.mpr ⟨_, hmem, rfl⟩⟩
    | _ => exact absurd hsome (by simp)
  | _ => exact absurd hsome (by simp)

theorem inspectDocument_nil {workflowName : PyStr} {document : Mapping}
    {controls hosted exceptions : Members}
    (h : inspectDocument workflowName document controls hosted exceptions = .ok []) :
    jobErrors document hosted exceptions = [] ∧ workflowPermissionErrors document controls
    exceptions = .ok [] := by
  obtain ⟨permissions, hpermissions, h⟩ := except_bind_ok.mp h
  have h := Except.ok.inj h
  simp only [List.append_eq_nil_iff, List.map_eq_nil_iff] at h
  obtain ⟨⟨⟨⟨⟨hjobs, rfl⟩, -⟩, -⟩, -⟩, -⟩ := h
  exact ⟨hjobs, hpermissions⟩

/-- Without an error every job is a mapping under a name, and every exception names a job that is
there. -/
theorem jobErrors_nil {document : Mapping} {hosted exceptions : Members}
    (h : jobErrors document hosted exceptions = []) :
    (∃ jobs, field "jobs" document = .map jobs ∧ jobsOf document = namedJobs jobs
      ∧ (namedJobs jobs).length = jobs.length)
    ∧ ∀ name ∈ keys exceptions, ∃ job, (name, job) ∈ jobsOf document := by
  unfold jobErrors at h
  simp only [List.append_eq_nil_iff, errorUnless_eq_nil, List.map_eq_nil_iff, beq_iff_eq] at h
  obtain ⟨⟨⟨⟨-, hmapping⟩, hlength⟩, -⟩, hunknown⟩ := h
  obtain ⟨jobs, hjobs⟩ := Option.isSome_iff_exists.mp hmapping
  have hof : jobsOf document = namedJobs jobs := by rw [jobsOf, hjobs, Option.getD_some]
  refine ⟨⟨jobs, ?_, hof, ?_⟩, ?_⟩
  · unfold jobsMapping at hjobs
    split at hjobs
    · next members hfield => rw [hfield, Option.some.inj hjobs]
    · exact absurd hjobs (by simp)
  · rw [hjobs, Option.getD_some, hof] at hlength
    exact hlength
  · intro name hname
    by_contra hnone
    have hmem : name ∈ (keys exceptions).filter fun name =>
      !((jobsOf document).map Prod.fst).contains name := by
      refine List.mem_filter.mpr ⟨hname, ?_⟩
      simpa using fun job hjob => hnone ⟨job, hjob⟩
    have hsorted := mem_sortedSet.mpr hmem
    rw [hunknown] at hsorted
    exact absurd hsorted (List.not_mem_nil)

/-- Without errors, the default and the permissions of every job are well formed. -/
theorem workflowPermissionErrors_nil {document : Mapping} {controls exceptions : Members}
    (h : workflowPermissionErrors document controls exceptions = .ok [])
    (hon : truthy (get (lit "require_read_only_permissions") controls) = true)
    (hjobs : jobsOf document ≠ []) :
    permissionErrors (field "permissions" document) (lit "default") true [] = .ok []
      ∧ ∀ entry ∈ jobsOf document, jobPermissionErrors exceptions entry = .ok [] := by
  unfold workflowPermissionErrors at h
  rw [if_pos (by simpa [hon] using hjobs)] at h
  obtain ⟨default, hdefault, h⟩ := except_bind_ok.mp h
  obtain ⟨jobs, hcollect, h⟩ := except_bind_ok.mp h
  obtain ⟨rfl, rfl⟩ := List.append_eq_nil_iff.mp (Except.ok.inj h)
  exact ⟨hdefault, collect_eq_nil.mp hcollect⟩

/-- A job without errors has a mapping of its own, or nothing is declared for it. -/
theorem jobPermissionErrors_nil {exceptions : Members} {jobName : PyStr} {job : Mapping}
    (h : jobPermissionErrors exceptions (jobName, job) = .ok []) :
    (∃ members, find? (lit "permissions") job = some (.map members)
        ∧ Restricted members (allowedWrites exceptions jobName))
      ∨ (find? (lit "permissions") job = none ∧ allowedWrites exceptions jobName = []) := by
  rw [jobPermissionErrors] at h
  split at h
  · next value hvalue =>
    obtain ⟨members, rfl, hrestricted, -⟩ := permissionErrors_nil h
    exact .inl ⟨members, hvalue, hrestricted⟩
  · next hnone =>
    have hempty := errorUnless_eq_nil.mp (Except.ok.inj h)
    exact .inr ⟨hnone, List.isEmpty_iff.mp hempty⟩

end SddGov.CiGuard
