import SddGov.CiGuard.Workflow

/-!
# The workflow check

`verify_guard` puts the errors of the contract, of the file system and of every
workflow in one report. Where the report is without errors and the contract asks
for read-only permissions, no job of a workflow that is not exempt can write
more than the contract declares for that very job, and every declaration is used
(`least_privilege`). A report comes back unless a list or a mapping stands where
a set is asked for a value (`verify_guard_total_iff`).
-/

namespace SddGov.CiGuard

open SddGov.Python

/-! ## The check -/

/-- What `verify_guard` returns. -/
structure GuardReport where
  ok : Bool
  project : PyStr
  contract : PyStr
  hostedBudget : Json
  workflows : List WorkflowReport
  errors : List PyStr
  deriving DecidableEq

/-- `contract.get(key, {})`, and `{}` where that is no object. -/
def objectOf (key : String) (contract : Members) : Members :=
  match (lookup (lit key) contract).getD (.obj []) with
  | .obj m => m
  | _ => []

def controlsOf (contract : Members) : Members := objectOf "workflow_controls" contract

/-- `exemptions`. -/
def exemptNames (controls : Members) : List PyStr := (strings? (exemptWorkflows controls)).getD []

/-- `permission_exceptions`. -/
def permissionExceptions (controls : Members) : Members :=
  match writePermissionExceptions controls with
  | .obj m => m
  | _ => []

/-- The exceptions a workflow is inspected with. -/
def exceptionsFor (controls : Members) (name : PyStr) : Json :=
  (lookup name (permissionExceptions controls)).getD (.obj [])

/-- The inspection of one document: an exempt one is held to no control. -/
def inspectOne (load : PyStr → Except LoadError Yaml) (controls hosted : Members)
    (name source : PyStr) :
    Except Exn (List PyStr × WorkflowReport) :=
  if (exemptNames controls).contains name then do
    let inspected ← inspectWorkflow load name source [] hosted (.obj [])
    pure (inspected.1, { inspected.2 with exempt := true })
  else inspectWorkflow load name source controls hosted (exceptionsFor controls name)

/-- The loop over the documents. -/
def inspectDocuments (load : PyStr → Except LoadError Yaml) (controls hosted : Members) :
    List (PyStr × PyStr) → Except Exn (List PyStr × List WorkflowReport)
  | [] => .ok ([], [])
  | (name, source) :: rest => do
    let inspected ← inspectOne load controls hosted name source
    let others ← inspectDocuments load controls hosted rest
    pure (inspected.1 ++ others.1, inspected.2 :: others.2)

/-- What is wrong with the documents as a set. -/
def documentErrors (controls : Members) (documents : List (PyStr × PyStr))
    (filesystemErrors : List PyStr) :
    List PyStr :=
  let names := documents.map Prod.fst
  filesystemErrors
    ++ errorUnless (!(documents.isEmpty && filesystemErrors.isEmpty))
      (lit "no GitHub Actions workflows found")
    ++ (sortedSet ((exemptNames controls).filter fun name => !names.contains name)).map
      (lit "exempt workflows reference missing workflow " ++ ·)
    ++ (sortedSet ((keys (permissionExceptions controls)).filter fun name =>
      !names.contains name)).map
      (lit "write permission exceptions reference missing workflow " ++ ·)

/-- `verify_guard` after the files are read: `documents` and `filesystemErrors` are what
`_safe_workflow_documents` found. -/
def verifyGuard (load : PyStr → Except LoadError Yaml) (project : PyStr) (contract : Members)
    (documents : List (PyStr × PyStr)) (filesystemErrors : List PyStr) :
    Except Exn GuardReport := do
  let contractErrors ← validateContract contract
  let inspected ← inspectDocuments load (controlsOf contract) (objectOf "hosted" contract) documents
  let errors := contractErrors ++ documentErrors (controlsOf contract) documents filesystemErrors
    ++ inspected.1
  pure {
    ok := errors.isEmpty
    project := project
    contract := lit ".sddgov/ci-cost-guard.json"
    hostedBudget := (lookup (lit "hosted") contract).getD (.obj [])
    workflows := inspected.2
    errors := errors }

/-! ## A report comes back -/

section Total

variable {load : PyStr → Except LoadError Yaml} {controls : Members} (hosted : Members)

/-- The loader makes a value of the text, or fails with the one exception that is caught. -/
def Readable (load : PyStr → Except LoadError Yaml) (source : PyStr) : Prop :=
  ∀ exn, load source ≠ .error (.other exn)

/-- A workflow is inspected to the end where the loader fails with what is caught, if it fails, and
where the permissions can be looked up. -/
theorem inspectWorkflow_isOk {name source : PyStr} {exceptions : Json} :
    (inspectWorkflow load name source controls hosted exceptions).isOk = true ↔
      Readable load source ∧ ∀ document, load source = .ok (.map document) →
        truthy (get (lit "require_read_only_permissions") controls) = true → jobsOf document ≠ [] →
          ∀ value, Inspected document value → PermissionsHashable value := by
  unfold inspectWorkflow Readable
  cases hload : load source with
  | error e =>
    cases e with
    | yaml text => exact ⟨fun _ => ⟨fun _ => by simp, fun _ h => absurd h (by simp)⟩, fun _ => rfl⟩
    | other exn =>
      exact ⟨fun h => absurd h (by simp [Except.isOk, Except.toBool]), fun h =>
        absurd rfl (h.1 exn)⟩
  | ok value =>
    refine Iff.trans ?_ (and_iff_right (by simp)).symm
    cases value with
    | map document =>
      dsimp only
      rw [except_bind_isOk]
      constructor
      · rintro ⟨errors, h, -⟩ other hother
        obtain rfl := Yaml.map.inj (Except.ok.inj hother)
        exact inspectDocument_isOk.mp (except_isOk_iff.mpr ⟨_, h⟩)
      · intro h
        obtain ⟨errors, herrors⟩ := except_isOk_iff.mp (inspectDocument_isOk.mpr (h document rfl))
        exact ⟨errors, herrors, rfl⟩
    | _ => exact ⟨fun _ _ h => absurd h (by simp), fun _ => rfl⟩

/-- The documents the check of permissions is made on can be looked up. -/
def DocumentHashable (load : PyStr → Except LoadError Yaml) (controls : Members)
    (name source : PyStr) : Prop :=
  name ∉ exemptNames controls → truthy (get (lit "require_read_only_permissions") controls) = true →
    ∀ document, load source = .ok (.map document) → jobsOf document ≠ [] →
      ∀ value, Inspected document value → PermissionsHashable value

/-- An exempt workflow is loaded too, and its permissions are not checked. -/
theorem inspectOne_isOk {name source : PyStr} :
    (inspectOne load controls hosted name source).isOk = true ↔
      Readable load source ∧ DocumentHashable load controls name source := by
  unfold inspectOne DocumentHashable
  split
  · next hexempt =>
    have hexempt : name ∈ exemptNames controls := by simpa using hexempt
    constructor
    · intro h
      obtain ⟨inspected, hinspected, -⟩ := except_bind_isOk.mp h
      exact ⟨((inspectWorkflow_isOk hosted).mp (except_isOk_iff.mpr ⟨_, hinspected⟩)).1, fun hnot =>
        absurd hexempt hnot⟩
    · rintro ⟨hread, -⟩
      have hall : (inspectWorkflow load name source [] hosted (.obj [])).isOk = true :=
        (inspectWorkflow_isOk hosted).mpr ⟨hread, fun document _ hon => absurd hon (by decide)⟩
      obtain ⟨inspected, hinspected⟩ := except_isOk_iff.mp hall
      exact except_bind_isOk.mpr ⟨inspected, hinspected, rfl⟩
  · next hexempt =>
    have hexempt : name ∉ exemptNames controls := by simpa using hexempt
    rw [inspectWorkflow_isOk hosted]
    refine and_congr_right fun _ => ?_
    constructor
    · intro h _ hon document hload
      exact h document hload hon
    · intro h document hload hon
      exact h hexempt hon document hload

/-- The loop comes to an end where each of the documents does. -/
theorem inspectDocuments_isOk {documents : List (PyStr × PyStr)} :
    (inspectDocuments load controls hosted documents).isOk = true ↔
      ∀ name source, (name, source) ∈ documents →
        Readable load source ∧ DocumentHashable load controls name source := by
  induction documents with
  | nil => simp [inspectDocuments, Except.isOk, Except.toBool]
  | cons document rest ih =>
    obtain ⟨name, source⟩ := document
    rw [inspectDocuments, except_bind_isOk]
    constructor
    · rintro ⟨inspected, hfirst, h⟩ other otherSource hmem
      obtain ⟨others, hothers, -⟩ := except_bind_isOk.mp h
      rcases List.mem_cons.mp hmem with heq | hmem
      · obtain ⟨rfl, rfl⟩ := Prod.mk.inj heq
        exact (inspectOne_isOk hosted).mp (except_isOk_iff.mpr ⟨_, hfirst⟩)
      · exact ih.mp (except_isOk_iff.mpr ⟨_, hothers⟩) _ _ hmem
    · intro h
      obtain ⟨inspected, hfirst⟩ := except_isOk_iff.mp
        ((inspectOne_isOk hosted).mpr (h name source (by simp)))
      obtain ⟨others, hothers⟩ := except_isOk_iff.mp
        (ih.mpr fun other otherSource hmem => h other otherSource (List.mem_cons_of_mem _ hmem))
      exact ⟨inspected, hfirst, except_bind_isOk.mpr ⟨others, hothers, rfl⟩⟩

end Total

/-- Every document is readable, and every value that a set is asked for is a scalar. -/
structure Lookupable (load : PyStr → Except LoadError Yaml) (contract : Members)
    (documents : List (PyStr × PyStr)) :
    Prop where
  values : ContractHashable contract
  documents : ∀ name source, (name, source) ∈ documents →
    Readable load source ∧ DocumentHashable load (controlsOf contract) name source

/-- A report is made of the errors of the contract, of the documents as a set, and of each
document. -/
theorem verifyGuard_ok {load : PyStr → Except LoadError Yaml} {project : PyStr} {contract : Members}
    {documents : List (PyStr × PyStr)} {filesystemErrors : List PyStr} {report : GuardReport}
    (h : verifyGuard load project contract documents filesystemErrors = .ok report) :
    ∃ contractErrors workflowErrors reports, validateContract contract = .ok contractErrors
      ∧ inspectDocuments load (controlsOf contract) (objectOf "hosted" contract) documents
        = .ok (workflowErrors, reports)
      ∧ report.errors = contractErrors ++ documentErrors
        (controlsOf contract) documents filesystemErrors ++ workflowErrors
      ∧ report.ok = report.errors.isEmpty := by
  obtain ⟨contractErrors, hcontract, h⟩ := except_bind_ok.mp h
  obtain ⟨inspected, hinspected, h⟩ := except_bind_ok.mp h
  obtain rfl := Except.ok.inj h
  exact ⟨contractErrors, inspected.1, inspected.2, hcontract, hinspected, rfl, rfl⟩

/-- The check ends with a report exactly where every value it asks a set for is a scalar and the
loader fails, if it does, with a `YAMLError`. -/
theorem verify_guard_total_iff (load : PyStr → Except LoadError Yaml) (project : PyStr)
    (contract : Members)
    (documents : List (PyStr × PyStr)) (filesystemErrors : List PyStr) :
    (∃ report, verifyGuard load project contract documents filesystemErrors = .ok report
        ∧ (report.ok = true ↔ report.errors = []))
      ↔ Lookupable load contract documents := by
  constructor
  · rintro ⟨report, h, -⟩
    obtain ⟨_, _, _, hcontract, hdocuments, -, -⟩ := verifyGuard_ok h
    exact ⟨(validateContract_isOk _).mp (except_isOk_iff.mpr ⟨_, hcontract⟩),
      (inspectDocuments_isOk _).mp (except_isOk_iff.mpr ⟨_, hdocuments⟩)⟩
  · intro h
    obtain ⟨contractErrors, hcontract⟩ := except_isOk_iff.mp
      ((validateContract_isOk _).mpr h.values)
    obtain ⟨inspected, hinspected⟩ := except_isOk_iff.mp
      ((inspectDocuments_isOk (objectOf "hosted" contract)).mpr h.documents)
    refine ⟨_, except_bind_ok.mpr ⟨_, hcontract, except_bind_ok.mpr ⟨_, hinspected, rfl⟩⟩, ?_⟩
    exact List.isEmpty_iff

theorem list_profile_raises : ¬ ∀ (load : PyStr →
    Except LoadError Yaml) (project : PyStr) (contract : Members)
    (documents : List (PyStr × PyStr)) (filesystemErrors : List PyStr),
    (∀ source, Readable load source) →
    ∃ report, verifyGuard load project contract documents filesystemErrors = .ok report := by
  intro h
  obtain ⟨report, hreport⟩ :=
    h (fun _ => .ok (.map [])) (lit "/project") [(lit "profile", .arr [])] [] [] fun _ _ => by simp
  have hraises : verifyGuard (fun _ => .ok (.map [])) (lit "/project") [(lit "profile", .arr [])] []
    [] = .error .type := by
    rfl
  exact absurd (hraises.symm.trans hreport) (by simp)

/-! ## Permissions after a report without errors -/

/-- The contract declares that the job of the workflow may write the permission. -/
def Declared (contract : Members) (workflowName jobName permission : PyStr) : Prop :=
  ∃ workflows jobs permissions, writePermissionExceptions (controlsOf contract) = .obj workflows
    ∧ lookup workflowName workflows = some (.obj jobs)
      ∧ lookup jobName jobs = some (.arr permissions)
    ∧ .str permission ∈ permissions

/-- The permissions of a job's token: its own mapping, else the workflow's. -/
def effectivePermissions (document job : Mapping) : Yaml :=
  (find? (lit "permissions") job).getD (field "permissions" document)

/-- Nothing but reading, or nothing at all, or a write of a permission in `allowed`. -/
def Grants (allowed : PyStr → Prop) (permissions : Mapping) : Prop :=
  ∀ key value, (key, value) ∈ permissions → ∃ name, key = .str name
    ∧ (isText "read" value = true ∨ isText "none" value = true
      ∨ (isText "write" value = true ∧ allowed name))

/-- The permissions of the tokens in one workflow. -/
structure WorkflowRestricted (contract : Members) (name : PyStr) (document : Mapping) : Prop where
  /-- every job is a mapping with a name and has permissions it may have -/
  jobs : ∃ jobs, field "jobs" document = .map jobs ∧ ∀ key value, (key, value) ∈ jobs →
    ∃ jobName job permissions, key = .str jobName ∧ value = .map job
      ∧ effectivePermissions document job = .map permissions
        ∧ Grants (Declared contract name jobName) permissions
  /-- the default of the jobs reads the contents and writes nothing -/
  contents : jobsOf document ≠ [] → ∃ permissions, field "permissions" document = .map permissions
    ∧ isText "read" (field "contents" permissions) = true ∧ Grants (fun _ => False) permissions

/-- Every job has the permissions it may have, and every exception is of use. -/
structure LeastPrivilege (load : PyStr → Except LoadError Yaml) (contract : Members)
    (documents : List (PyStr × PyStr)) :
    Prop where
  restricted : ∀ name source, (name, source) ∈ documents →
    name ∉ exemptNames (controlsOf contract) →
    ∃ document, load source = .ok (.map document) ∧ WorkflowRestricted contract name document
  used : ∀ name jobName permission, Declared contract name jobName permission →
    name ∉ exemptNames (controlsOf contract) ∧ (∃ source, (name, source) ∈ documents)
      ∧ ∀ source, (name, source) ∈ documents → ∃ document job permissions value,
        load source = .ok (.map document)
        ∧ (jobName, job) ∈ jobsOf document ∧ find? (lit "permissions") job = some (.map permissions)
        ∧ find? permission permissions = some value ∧ isText "write" value = true

/-- What is looked up is a member. -/
theorem mem_of_lookup {key : PyStr} {value : Json} {m : Members} (h : lookup key m = some value) :
    (key, value) ∈ m := by
  induction m with
  | nil => exact absurd h (by simp [lookup])
  | cons entry rest ih =>
    obtain ⟨k, v⟩ := entry
    rw [lookup] at h
    split at h
    · next hk =>
      obtain rfl := Option.some.inj h
      simp [hk]
    · exact List.mem_cons_of_mem _ (ih h)

/-- What may be written is what is declared. -/
theorem declared_of_allowedWrites {contract : Members} {name jobName permission : PyStr}
    (h : permission ∈ allowedWrites (jobWriteExceptions (exceptionsFor (controlsOf contract) name))
      jobName) :
    Declared contract name jobName permission := by
  -- the declaration is found along the three lookups
  have hjobs : ∃ jobs value, exceptionsFor (controlsOf contract) name = .obj jobs
    ∧ lookup jobName jobs = some value
      ∧ permission ∈ (strings? value).getD [] := by
    unfold allowedWrites at h
    cases hvalue :
      lookup jobName (jobWriteExceptions (exceptionsFor (controlsOf contract) name)) with
    | none =>
      rw [hvalue] at h
      exact absurd h (by simp [strings?, stringItems])
    | some value =>
      rw [hvalue, Option.getD_some] at h
      cases hexceptions : exceptionsFor (controlsOf contract) name with
      | obj jobs =>
        rw [hexceptions] at hvalue
        exact ⟨jobs, value, rfl, hvalue, h⟩
      | _ =>
        rw [hexceptions] at hvalue
        exact absurd hvalue (by simp [jobWriteExceptions, lookup])
  obtain ⟨jobs, value, hexceptions, hjob, hpermission⟩ := hjobs
  have hworkflow : lookup name (permissionExceptions (controlsOf contract)) = some (.obj jobs) := by
    unfold exceptionsFor at hexceptions
    cases hname : lookup name (permissionExceptions (controlsOf contract)) with
    | none =>
      rw [hname, Option.getD_none] at hexceptions
      obtain rfl := Json.obj.inj hexceptions
      exact absurd hjob (by simp [lookup])
    | some exceptions =>
      rw [hname, Option.getD_some] at hexceptions
      rw [hexceptions]
  have hworkflows : writePermissionExceptions (controlsOf contract)
    = .obj (permissionExceptions (controlsOf contract)) := by
    unfold permissionExceptions at hworkflow ⊢
    cases hall : writePermissionExceptions (controlsOf contract) with
    | obj workflows => rfl
    | _ =>
      rw [hall] at hworkflow
      exact absurd hworkflow (by simp [lookup])
  cases htexts : strings? value with
  | none => exact absurd hpermission (by simp [htexts])
  | some texts =>
    obtain rfl := eq_of_strings? htexts
    rw [htexts, Option.getD_some] at hpermission
    exact ⟨_, jobs, _, hworkflows, hworkflow, hjob, List.mem_map_of_mem hpermission⟩

/-- In a contract without errors what is declared may be written, and not in an exempt workflow. -/
theorem allowedWrites_of_declared {contract : Members} {name jobName permission : PyStr}
    (hvalid : controlsErrors (get (lit "workflow_controls") contract) = [])
    (h : Declared contract name jobName permission) :
    permission ∈ allowedWrites (jobWriteExceptions (exceptionsFor (controlsOf contract) name))
    jobName
      ∧ jobName ∈ keys (jobWriteExceptions (exceptionsFor (controlsOf contract) name))
      ∧ name ∈ keys (permissionExceptions (controlsOf contract))
        ∧ name ∉ exemptNames (controlsOf contract) := by
  obtain ⟨workflows, jobs, permissions, hworkflows, hname, hjob, hpermission⟩ := h
  obtain ⟨controls, hcontrols, hexceptions⟩ := controlsErrors_nil hvalid
  have hof : controlsOf contract = controls := by
    unfold Python.get at hcontrols
    cases hlookup : lookup (lit "workflow_controls") contract with
    | none =>
      rw [hlookup] at hcontrols
      exact absurd hcontrols (by simp)
    | some value =>
      rw [hlookup, Option.getD_some] at hcontrols
      simp [controlsOf, objectOf, hlookup, hcontrols]
  rw [hof] at hworkflows ⊢
  rw [hworkflows] at hexceptions
  obtain ⟨hentries, hexempt⟩ := permissionExceptionErrors_nil hexceptions
  -- the contract was checked entry by entry, so the declared list is one of texts
  obtain ⟨texts, htexts⟩ := workflowExceptionErrors_nil (hentries _ (mem_of_lookup hname))
    (mem_of_lookup hjob)
  obtain hlist := Json.arr.inj (eq_of_strings? htexts)
  have hfor : exceptionsFor controls name = .obj jobs := by
    simp [exceptionsFor, permissionExceptions, hworkflows, hname]
  have hmem : permission ∈ texts := by
    rw [hlist] at hpermission
    obtain ⟨text, htext, heq⟩ := List.mem_map.mp hpermission
    rw [← Json.str.inj heq]
    exact htext
  refine ⟨?_, ?_, ?_, ?_⟩
  · simpa [allowedWrites, hfor, jobWriteExceptions, hjob, htexts] using hmem
  · rw [hfor]
    exact List.mem_map_of_mem (mem_of_lookup hjob)
  · simp only [permissionExceptions, hworkflows]
    exact List.mem_map_of_mem (mem_of_lookup hname)
  · intro hnot
    have hkey := hexempt name hnot
    exact absurd hkey (by simp [hasKey, hname])

/-- Without errors in all of them there are none in one. -/
theorem inspectDocuments_nil {load : PyStr → Except LoadError Yaml} {controls hosted : Members}
    {documents : List (PyStr × PyStr)} {reports : List WorkflowReport}
    (h : inspectDocuments load controls hosted documents = .ok ([], reports)) {name source : PyStr}
    (hmem : (name, source) ∈ documents) : ∃ report, inspectOne load controls hosted name source
    = .ok ([], report) := by
  induction documents generalizing reports with
  | nil => exact absurd hmem (by simp)
  | cons document rest ih =>
    obtain ⟨first, firstSource⟩ := document
    rw [inspectDocuments] at h
    obtain ⟨inspected, hfirst, h⟩ := except_bind_ok.mp h
    obtain ⟨others, hothers, h⟩ := except_bind_ok.mp h
    obtain ⟨herrors, -⟩ := Prod.mk.inj (Except.ok.inj h)
    obtain ⟨hnone, hrest⟩ := List.append_eq_nil_iff.mp herrors
    rcases List.mem_cons.mp hmem with heq | hmem
    · obtain ⟨rfl, rfl⟩ := Prod.mk.inj heq
      exact ⟨inspected.2, by rw [hfirst, ← hnone]⟩
    · have hothers : inspectDocuments load controls hosted rest = .ok ([], others.2) := by
        rw [hothers, ← hrest]
      exact ih hothers hmem

/-- What a document without errors was found to be. -/
structure Clean (load : PyStr → Except LoadError Yaml) (controls : Members) (name source : PyStr)
    (document : Mapping) :
    Prop where
  loaded : load source = .ok (.map document)
  jobs : ∃ jobs, field "jobs" document = .map jobs ∧ jobsOf document = namedJobs jobs
    ∧ (namedJobs jobs).length = jobs.length
  known : ∀ jobName ∈ keys (jobWriteExceptions (exceptionsFor controls name)), ∃ job,
    (jobName, job) ∈ jobsOf document
  default : jobsOf document ≠ [] → permissionErrors (field "permissions" document)
    (lit "default") true [] = .ok []
  permissions : ∀ entry ∈ jobsOf document,
    jobPermissionErrors (jobWriteExceptions (exceptionsFor controls name)) entry = .ok []

/-- A workflow without errors is clean. Its checks are taken one after the other, in the order in
which the errors are collected. -/
theorem inspectOne_nil {load : PyStr → Except LoadError Yaml} {controls hosted : Members}
    {name source : PyStr}
    {report : WorkflowReport} (h : inspectOne load controls hosted name source = .ok ([], report))
    (hexempt : name ∉ exemptNames controls)
    (hon : truthy (get (lit "require_read_only_permissions") controls) = true) :
    ∃ document, Clean load controls name source document := by
  unfold inspectOne at h
  rw [if_neg (by simpa using hexempt)] at h
  unfold inspectWorkflow at h
  split at h
  · exact absurd (Except.ok.inj h) (by simp)
  · cases h
  · next document hload =>
    obtain ⟨errors, herrors, h⟩ := except_bind_ok.mp h
    obtain ⟨rfl, -⟩ := Prod.mk.inj (Except.ok.inj h)
    obtain ⟨hjobErrors, hpermissionErrors⟩ := inspectDocument_nil herrors
    obtain ⟨hjobs, hknown⟩ := jobErrors_nil hjobErrors
    have hpermissions := workflowPermissionErrors_nil hpermissionErrors hon
    refine ⟨document, hload, hjobs, hknown, fun hne => (hpermissions hne).1, fun entry hentry => ?_⟩
    exact (hpermissions (List.ne_nil_of_mem hentry)).2 entry hentry
  · exact absurd (Except.ok.inj h) (by simp)

theorem Restricted.grants {members : Mapping} {allowed : List PyStr} {P : PyStr → Prop}
    (h : Restricted members allowed) (hallowed : ∀ name ∈ allowed, P name) : Grants P members := by
  intro key value hmem
  obtain ⟨name, hname, hvalue⟩ := h.entries key value hmem
  exact ⟨name, hname, hvalue.imp_right (Or.imp_right (And.imp_right (hallowed name)))⟩

/-- The default of a clean workflow, where there is a job. -/
theorem Clean.contents {load : PyStr → Except LoadError Yaml} {controls : Members}
    {name source : PyStr} {document : Mapping}
    (h : Clean load controls name source document) (hjobs : jobsOf document ≠ []) :
    ∃ permissions, field "permissions" document = .map permissions
      ∧ isText "read" (field "contents" permissions) = true
        ∧ Grants (fun _ => False) permissions := by
  obtain ⟨permissions, hmap, hrestricted, hcontents⟩ := permissionErrors_nil (h.default hjobs)
  exact ⟨permissions, hmap, hcontents rfl, hrestricted.grants (by simp)⟩

/-- In a clean workflow every token is restricted: that of a job by its own mapping, else by the
workflow's. -/
theorem Clean.restricted {load : PyStr → Except LoadError Yaml} {contract : Members}
    {name source : PyStr}
    {document : Mapping} (h : Clean load (controlsOf contract) name source document) :
    WorkflowRestricted contract name document := by
  obtain ⟨jobs, hfield, hof, hlength⟩ := h.jobs
  refine ⟨⟨jobs, hfield, ?_⟩, h.contents⟩
  intro key value hmem
  obtain ⟨jobName, job, hkey, hvalue, hnamed⟩ := namedJobs_complete hlength hmem
  rw [← hof] at hnamed
  -- a job that sets no permissions has those of the workflow, which grant no writing at all
  rcases jobPermissionErrors_nil (h.permissions _ hnamed) with ⟨members, hown, hrestricted⟩
    | ⟨hnone, -⟩
  · refine ⟨jobName, job, members, hkey, hvalue, ?_, ?_⟩
    · rw [effectivePermissions, hown, Option.getD_some]
    · exact hrestricted.grants fun permission hallowed => declared_of_allowedWrites hallowed
  · obtain ⟨permissions, hmap, -, hgrants⟩ := h.contents (List.ne_nil_of_mem hnamed)
    refine ⟨jobName, job, permissions, hkey, hvalue, ?_, ?_⟩
    · rw [effectivePermissions, hnone, Option.getD_none, hmap]
    · intro key value hentry
      obtain ⟨permission, hname, hread | hnone | ⟨-, hfalse⟩⟩ := hgrants key value hentry
      · exact ⟨permission, hname, .inl hread⟩
      · exact ⟨permission, hname, .inr (.inl hnone)⟩
      · exact hfalse.elim

/-- A permission that may be written in a clean workflow is written there. -/
theorem Clean.used {load : PyStr → Except LoadError Yaml} {controls : Members}
    {name source jobName permission : PyStr}
    {document : Mapping} (h : Clean load controls name source document)
    (hkey : jobName ∈ keys (jobWriteExceptions (exceptionsFor controls name)))
    (hallowed : permission ∈ allowedWrites (jobWriteExceptions (exceptionsFor controls name))
      jobName) :
    ∃ job permissions value, (jobName, job) ∈ jobsOf document
      ∧ find? (lit "permissions") job = some (.map permissions)
      ∧ find? permission permissions = some value ∧ isText "write" value = true := by
  obtain ⟨job, hjob⟩ := h.known jobName hkey
  -- a job without permissions of its own passes only where nothing is declared for it
  rcases jobPermissionErrors_nil (h.permissions _ hjob) with ⟨members, hown, hrestricted⟩
    | ⟨-, hempty⟩
  · obtain ⟨value, hfind, hwrite⟩ := hrestricted.used permission hallowed
    exact ⟨job, members, value, hjob, hown, hfind, hwrite⟩
  · exact absurd hallowed (by simp [hempty])

/-- A report without errors under a contract that wants read-only permissions means that the
tokens of the jobs have least privilege. -/
theorem least_privilege {load : PyStr → Except LoadError Yaml} {project : PyStr}
    {contract : Members}
    {documents : List (PyStr × PyStr)} {filesystemErrors : List PyStr} {report : GuardReport}
    (h : verifyGuard load project contract documents filesystemErrors = .ok report)
    (hok : report.ok = true)
    (hon : get (lit "require_read_only_permissions") (controlsOf contract) = .bool true) :
    LeastPrivilege load contract documents := by
  obtain ⟨contractErrors, workflowErrors, reports, hcontract, hdocuments, herrors, hreport⟩ :=
    verifyGuard_ok h
  rw [hreport, List.isEmpty_iff, herrors, List.append_eq_nil_iff, List.append_eq_nil_iff] at hok
  obtain ⟨⟨rfl, hset⟩, rfl⟩ := hok
  have hread : truthy (get (lit "require_read_only_permissions") (controlsOf contract)) = true := by
    rw [hon]
    rfl
  have hclean : ∀ name source, (name, source) ∈ documents →
    name ∉ exemptNames (controlsOf contract) →
      ∃ document, Clean load (controlsOf contract) name source document := by
    intro name source hmem hexempt
    obtain ⟨_, hinspected⟩ := inspectDocuments_nil hdocuments hmem
    exact inspectOne_nil hinspected hexempt hread
  constructor
  · intro name source hmem hexempt
    obtain ⟨document, hdocument⟩ := hclean name source hmem hexempt
    exact ⟨document, hdocument.loaded, hdocument.restricted⟩
  · intro name jobName permission hdeclared
    have hcontrols : controlsErrors (get (lit "workflow_controls") contract) = [] := by
      obtain ⟨profileKnown, _, hcontract⟩ := except_bind_ok.mp hcontract
      obtain ⟨hosted, _, hcontract⟩ := except_bind_ok.mp hcontract
      exact (List.append_eq_nil_iff.mp (Except.ok.inj hcontract)).2
    obtain ⟨hallowed, hkey, hname, hexempt⟩ := allowedWrites_of_declared hcontrols hdeclared
    refine ⟨hexempt, ?_, ?_⟩
    · have hmissing := (List.append_eq_nil_iff.mp hset).2
      rw [List.map_eq_nil_iff] at hmissing
      by_contra hnone
      have hmem : name ∈ (keys (permissionExceptions (controlsOf contract))).filter
          fun name => !(documents.map Prod.fst).contains name := by
        refine List.mem_filter.mpr ⟨hname, ?_⟩
        simpa using fun source hsource => hnone ⟨source, hsource⟩
      have hsorted := mem_sortedSet.mpr hmem
      rw [hmissing] at hsorted
      exact absurd hsorted (List.not_mem_nil)
    · intro source hmem
      obtain ⟨document, hdocument⟩ := hclean name source hmem hexempt
      obtain ⟨job, permissions, value, hjob, hown, hfind, hwrite⟩ := hdocument.used hkey hallowed
      exact ⟨document, job, permissions, value, hdocument.loaded, hjob, hown, hfind, hwrite⟩

/-- A contract with one exception, for the job `deploy` of `release.yml`. -/
def releaseContract : Members :=
  [(lit "schema_version", .str (lit "1.0")),
    (lit "profile", .str (lit "solo-fast")),
    (lit "local_green", .obj [(lit "commands", .arr [.arr [.str (lit "pytest")]])]),
    (lit "hosted", .obj [(lit "max_runs_per_work_package", .int 1),
      (lit "max_reruns_per_revision", .int 0),
      (lit "expected_minutes", .int 5), (lit "full_matrix", .str (lit "manual"))]),
    (lit "workflow_controls", .obj [(lit "require_concurrency", .bool false),
      (lit "cancel_in_progress", .bool false),
      (lit "require_job_timeouts", .bool false), (lit "require_read_only_permissions", .bool true),
      (lit "skip_draft_pull_requests", .bool false),
      (lit "write_permission_exceptions", .obj [(lit "release.yml",
        .obj [(lit "deploy", .arr [.str (lit "packages")])])])])]

def releaseDocument : Mapping :=
  [(.str (lit "on"), .scalar (.str (lit "workflow_dispatch"))),
    (.str (lit "permissions"), .map [(.str (lit "contents"), .scalar (.str (lit "read")))]),
    (.str (lit "jobs"), .map [(.str (lit "deploy"), .map [
      (.str (lit "runs-on"), .scalar (.str (lit "ubuntu-latest"))),
      (.str (lit "permissions"), .map [(.str (lit "packages"), .scalar (.str (lit "write")))])])])]

def releaseReport : GuardReport where
  ok := true
  project := lit "/project"
  contract := lit ".sddgov/ci-cost-guard.json"
  hostedBudget := (lookup (lit "hosted") releaseContract).getD (.obj [])
  workflows := [⟨lit "release.yml", false, [lit "deploy"], false⟩]
  errors := []

theorem least_privilege_release :
    LeastPrivilege (fun _ => .ok (.map releaseDocument)) releaseContract
    [(lit "release.yml", lit "on: workflow_dispatch")] :=
  have h : verifyGuard (fun _ => .ok (.map releaseDocument)) (lit "/project") releaseContract
      [(lit "release.yml", lit "on: workflow_dispatch")] [] = .ok releaseReport := by decide
  least_privilege h rfl rfl

end SddGov.CiGuard
