import SddGov.MergeGate.Audit
import SddGov.Python.Crypto

/-!
# The merge gate

`verify_merge` and the parts of it that ask git: the rollback record, the range
its commit has to lie in, and the revert that is tried in an isolated
repository. What asks something else (the evidence packages, the local gate,
the rollback drill, a signed review, the file system) is part of `MergeHost`.
-/

namespace SddGov.MergeGate

open SddGov.Python SddGov.Git

/-! ## The rollback record -/

/-- `str.lower` on the ASCII letters. -/
def lower (s : PyStr) : PyStr :=
  s.map fun c => if 0x41 ≤ c.val ∧ c.val ≤ 0x5A then cp (c.val + 0x20) else c

/-- `needle in s`. -/
def containsText (needle s : PyStr) : Bool := s.tails.any fun t => needle.isPrefixOf t

/-- `re.fullmatch(r"[0-9a-f]{n}", s)`. -/
def isHexOf (n : Nat) (s : PyStr) : Bool :=
  s.length == n && s.all fun c => (0x30 ≤ c.val && c.val ≤ 0x39) || (0x61 ≤ c.val && c.val ≤ 0x66)

/-- A text-to-text dictionary. -/
abbrev Fields := List (PyStr × PyStr)

def fieldOf (key : String) (fields : Fields) : Option PyStr :=
  (fields.find? fun f => f.1 == lit key).map Prod.snd

/-- `set(fields) == names`, for a dictionary. -/
def hasFields (names : List String) (fields : Fields) : Bool :=
  (fields.all fun f => (names.map lit).contains f.1)
    && names.all fun n => (fields.map Prod.fst).contains (lit n)

/-- One line of the record. -/
def rollbackField (raw : PyStr) (fields : Fields) : Option Fields :=
  let colon := cp 0x3A
  let space := cp 0x20
  if !raw.contains colon then none
  else
    let key := raw.takeWhile (· != colon)
    let value := (raw.dropWhile (· != colon)).drop 1
    if raw ≠ strip raw ∨ key.isEmpty ∨ key ≠ strip key ∨ key ≠ lower key
        ∨ (fields.map Prod.fst).contains key ∨ value.head? ≠ some space
        ∨ [space, space].isPrefixOf value ∨ value.drop 1 ≠ strip (value.drop 1) then none
    else some (fields ++ [(key, value.drop 1)])

/-- The loop over the lines: blank lines and comments are skipped. -/
def rollbackFields : List PyStr → Fields → Option Fields
  | [], fields => some fields
  | raw :: rest, fields =>
    let line := strip raw
    if line.isEmpty || line.head? == some (cp 0x23) then rollbackFields rest fields
    else (rollbackField raw fields).bind (rollbackFields rest)

/-- The target names something. -/
def validTarget (fields : Fields) : Bool :=
  let target := (fieldOf "target" fields).getD []
  !target.isEmpty && target.length ≤ 240
    && !(["todo", "unavailable", "<", ">"].any fun token => containsText (lit token) (lower target))

/-- The comments that bridge a second version. -/
def bridgeComments : List String :=
  ["# reconcile_action: setup_agent_from_reverted_source", "# reconcile_agent: codex",
    "# reconcile_profile: team-standard", "# post_verify_action: doctor_and_python_module"]

def requiredV2 : List String :=
  ["rollback_version", "target", "rollback_action", "rollback_ref", "verify_action",
    "verify_module"]

def requiredV3 : List String :=
  requiredV2 ++ ["reconcile_action", "reconcile_agent", "reconcile_profile"]

def requiredV4 : List String :=
  ["rollback_version", "target", "rollback_action", "rollback_ref", "reconcile_action",
    "verify_action"]

/-- The field is one of these. -/
def fieldIn (key : String) (values : List String) (fields : Fields) : Bool :=
  match fieldOf key fields with
  | some v => (values.map lit).contains v
  | none => false

/-- The record reverts one commit by its full id. -/
def revertsCommit (fields : Fields) : Bool :=
  fieldIn "rollback_action" ["git_revert"] fields
    && isHexOf 40 ((fieldOf "rollback_ref" fields).getD [])

/-- The only fields that are kept. -/
def keep (names : List String) (fields : Fields) : Fields :=
  fields.filter fun f => (names.map lit).contains f.1

/-- The first version: one exact command. -/
def rollbackV1 (fields : Fields) : Option Fields :=
  let command := (fieldOf "command" fields).getD []
  let before := lit "git revert --no-edit "
  if hasFields ["rollback_version", "target", "command", "verify"] fields
    && before.isPrefixOf command
      && isHexOf 40 (command.drop before.length) && fieldIn "verify"
        ["python -m pytest"] fields then
    some [(lit "version", lit "1.0"), (lit "rollback_ref", command.drop before.length)]
  else none

/-- The second version, bridged by comments. -/
def rollbackV2 (text : PyStr) (fields : Fields) : Option Fields :=
  if hasFields requiredV2 fields
      && (bridgeComments.all fun comment => (splitLines text).count (lit comment) == 1)
      && revertsCommit fields && fieldIn "verify_action" ["python_module"] fields
      && fieldIn "verify_module" ["pytest", "unittest"] fields then
    some [(lit "version", lit "2.0"), (lit "rollback_ref", (fieldOf "rollback_ref" fields).getD []),
      (lit "reconcile_action", lit "setup_agent_from_reverted_source"),
      (lit "reconcile_agent", lit "codex"), (lit "reconcile_profile", lit "team-standard"),
      (lit "verify_action", lit "doctor_and_python_module"),
      (lit "verify_module", (fieldOf "verify_module" fields).getD [])]
  else none

/-- The third version: reconcile, then verify. -/
def rollbackV3 (fields : Fields) : Option Fields :=
  if hasFields requiredV3 fields && revertsCommit fields
      && fieldIn "reconcile_action" ["setup_agent_from_reverted_source"] fields
      && fieldIn "reconcile_agent" ["codex", "hermes"] fields
      && fieldIn "reconcile_profile" ["solo-fast", "team-standard", "regulated"] fields
      && fieldIn "verify_action" ["doctor_and_python_module"] fields
      && fieldIn "verify_module" ["pytest", "unittest"] fields then
    some (keep requiredV3 fields)
  else none

/-- The fourth version, of a repository that does not install itself. -/
def rollbackV4 (fields : Fields) : Option Fields :=
  if hasFields requiredV4 fields && revertsCommit fields
      && fieldIn "reconcile_action" ["assert_self_governance_deactivated"] fields
      && fieldIn "verify_action" ["self_governance_deactivated"] fields then
    some ((lit "version", lit "4.0") :: keep (requiredV4.drop 1) fields)
  else none

/-- `_rollback_contract`. -/
def rollbackContract (text : PyStr) (allowLegacyV1 allowV2PostconditionBridge : Bool) :
    Option Fields :=
  match rollbackFields (splitLines text) [] with
  | none => none
  | some fields =>
    if !validTarget fields then none
    else if fieldIn "rollback_version" ["1.0"] fields then
      if allowLegacyV1 then rollbackV1 fields else none
    else if fieldIn "rollback_version" ["2.0"] fields then
      if allowV2PostconditionBridge then rollbackV2 text fields else none
    else if fieldIn "rollback_version" ["3.0"] fields then rollbackV3 fields
    else if fieldIn "rollback_version" ["4.0"] fields then rollbackV4 fields
    else none

/-! ## The rollback commit -/

/-- What the gate asks beside git. -/
structure MergeHost where
  git : Client
  /-- `_load_json` on the gate file -/
  loadGate : PyStr → Except Exn Members
  /-- `_bounded_repository_path`, with the label of its errors -/
  boundedPath : Json → PyStr → Except Exn PyStr
  /-- the errors of `verify_dep(dep, strict=True, portable=True)` -/
  verifyDep : PyStr → Except Exn (List PyStr)
  /-- the object store can be resolved, and is a directory -/
  objectsDirectory : PyStr → Except Exn Bool
  /-- a new temporary directory with an empty directory `hooks` -/
  temporaryDirectory : Except Exn PyStr
  /-- `_rollback_postcondition_is_green` -/
  postconditionIsGreen : Fields → PyStr → Except Exn Bool
  /-- `_protected_patterns` -/
  protectedPatterns : PyStr → Except Exn (List PyStr)
  /-- `_verify_review_receipt` with the reviewers trusted at the base: the reviewer -/
  verifyReview : (review : PyStr) → (builderId : Json) → (digest : PyStr) → (gate : Members) →
    (baseRef : PyStr) → Except Exn Json
  /-- `run_local_gate` -/
  runLocalGate : Except Exn Members

/-- `except (OSError, ValueError)`: no value. -/
def noneOnOsOrValue {α : Type} : Except Exn α → Except Exn (Option α)
  | .ok a => .ok (some a)
  | .error e => if e.isOsOrValue then .ok none else .error e

/-- `except (OSError, subprocess.TimeoutExpired): return False`. -/
def falseOnOsOrTimeout : Except Exn Bool → Except Exn Bool
  | .error (.os _) => .ok false
  | .error .subprocess => .ok false
  | x => x

/-- The name of the commit a revision leads to. -/
def peeled (name : PyStr) : PyStr := name ++ lit "^\x7bcommit\x7d"

variable (M : MergeHost)

/-- The older commit is an ancestor of the newer one. -/
def isAncestor (older newer : PyStr) : Except Exn Bool := do
  let completed ← M.git.run [lit "merge-base", lit "--is-ancestor", older, newer]
  .ok (completed.returncode == 0)

/-- `_rollback_ref_is_in_candidate_range`. -/
def rollbackRefIsInCandidateRange (rollbackRef baseSha reviewedHeadSha : PyStr) :
    Except Exn Bool := do
  match ← noneOnValue (Git.git M.git [lit "rev-parse", lit "--verify", peeled rollbackRef]) with
  | none => .ok false
  | some resolved =>
    if resolved ≠ rollbackRef ∨ rollbackRef = baseSha then .ok false
    else if ← isAncestor M baseSha rollbackRef then isAncestor M rollbackRef reviewedHeadSha
    else .ok false

/-- `ROLLBACK_AUDIT_EXCLUDES`. -/
def rollbackAuditExcludes : List PyStr :=
  [lit ":(exclude)evidence/**", lit ":(exclude).sddgov/merge-gate.json",
    lit ":(exclude).sddgov/reviews/**"]

/-- The options of a merge in the isolated repository. -/
def isolatedOptions (temporary : PyStr) : List PyStr :=
  [lit "-c", lit "core.hooksPath=" ++ temporary ++ lit "/hooks", lit "-c",
    lit "protocol.allow=never"]

/-- The tree id `merge-tree` writes: 40 to 64 digits, and perhaps a line feed. -/
def isTreeOutput (out : PyStr) : Bool :=
  let digits := if out.getLast? = some lf then out.dropLast else out
  40 ≤ digits.length && digits.length ≤ 64 && isHexOf digits.length digits

/-- The arguments that merge a revert. -/
def mergeTreeArgs (temporary rollbackRef reviewedHeadSha parent : PyStr) : List PyStr :=
  isolatedOptions temporary ++ [lit "merge-tree", lit "--write-tree", lit "--no-messages",
    lit "--merge-base", rollbackRef, reviewedHeadSha, parent]

/-- The arguments that compare the result with the base. -/
def restoreDiffArgs (baseSha resultTree : PyStr) : List PyStr :=
  [lit "-c", lit "protocol.allow=never", lit "diff", lit "--quiet", baseSha, resultTree, lit "--",
    lit "."] ++ rollbackAuditExcludes

/-- The revert in the isolated repository restores the base. -/
def revertRestoresBase (rollbackRef baseSha reviewedHeadSha parent : PyStr) : Except Exn Bool := do
  let temporary ← M.temporaryDirectory
  let initialized ← M.git.isolated (isolatedOptions temporary
    ++ [lit "init", lit "--bare", lit "--quiet", lit "--template=", temporary ++ lit "/git"])
  if initialized.returncode ≠ 0 then .ok false
  else
    let completed ← M.git.isolated (mergeTreeArgs temporary rollbackRef reviewedHeadSha parent)
    if completed.returncode ≠ 0 ∨ !isTreeOutput completed.stdout then .ok false
    else
      let restored ← M.git.isolated (restoreDiffArgs baseSha (strip completed.stdout))
      .ok (restored.returncode == 0)

/-- The rollback commit touches no evidence and no audit path. -/
def touchesNoAudit (parent rollbackRef : PyStr) : Except Exn Bool := do
  match ← noneOnValue (changedPaths M.git parent rollbackRef) with
  | none => .ok false
  | some paths => .ok (!paths.any fun path => isAuditPath path true)

/-- The object store of the repository is there. -/
def objectsAreThere : Except Exn Bool := do
  match ← noneOnOsOrValue (do
      let objects ← Git.git M.git [lit "rev-parse", lit "--git-path", lit "objects"]
      M.objectsDirectory objects) with
  | none => .ok false
  | some isDirectory => .ok isDirectory

/-- `_rollback_ref_is_cleanly_revertible`. -/
def rollbackRefIsCleanlyRevertible (rollbackRef baseSha reviewedHeadSha : PyStr) :
    Except Exn Bool := do
  match ← noneOnValue
      (Git.git M.git [lit "rev-list", lit "--parents", lit "-n", lit "1", rollbackRef]) with
  | none => .ok false
  | some parentRow =>
    match words parentRow with
    | [name, parent] =>
      if name ≠ rollbackRef then .ok false
      else if !(← touchesNoAudit M parent rollbackRef) then .ok false
      else if !(← everyDescendantCommitIsAuditOnly M.git rollbackRef reviewedHeadSha true) then
        .ok false
      else if !(← objectsAreThere M) then .ok false
      else falseOnOsOrTimeout (revertRestoresBase M rollbackRef baseSha reviewedHeadSha parent)
    | _ => .ok false

/-! ## The gate file -/

/-- The members of a gate. -/
def gateFields : List String :=
  ["schema_version", "base_sha", "head_sha", "risk_level", "builder_id", "change_digest", "deps",
    "rollback_path", "protected_file_review"]

/-- The contract of the gate, its risk, its base and its head. -/
def checkGate (gate : Members) (baseSha : PyStr) : Except Exn PyStr := do
  require (keysEq gate (gateFields.map lit) && pyEq (get (lit "schema_version") gate)
    (.str (lit "1.0")))
    "merge gate has an invalid contract"
  let risk ← memberOfSet (get (lit "risk_level") gate) (["L0", "L1", "L2", "L3"].map lit)
  require risk "merge gate risk_level is invalid"
  require (pyEq (get (lit "base_sha") gate) (.str baseSha))
    "merge gate base_sha does not match the trusted exact base"
  match text? (get (lit "head_sha") gate) with
  | none => .error (valueError "merge gate head_sha is required")
  | some headSha => .ok headSha

/-- `change_digest`. -/
def changeDigest (C : Crypto) (baseRef : PyStr) : Except Exn PyStr := do
  let patch ← Git.git M.git [lit "diff", lit "--binary", baseRef ++ lit "...HEAD",
    lit "--", lit ".",
    lit ":(exclude).sddgov/merge-gate.json", lit ":(exclude).sddgov/reviews/**"]
  match utf8Encode patch with
  | none => .error (valueError "UnicodeEncodeError")
  | some bytes => .ok (C.sha256 bytes)

/-- The paths of the evidence packages. -/
def depPaths : Json → Option (List PyStr)
  | .arr items => items.mapM fun
    | .str s => if s.isEmpty then none else some s
    | _ => none
  | _ => none

/-- The loop over the packages: each error with the path of its package. -/
def depErrors : List PyStr → Except Exn (List PyStr)
  | [] => .ok []
  | relative :: rest => do
    let dep ← M.boundedPath (.str relative) (lit "merge DEP")
    let errors ← M.verifyDep dep
    let others ← depErrors rest
    .ok (errors.map (fun e => relative ++ lit ": " ++ e) ++ others)

/-- The evidence packages of the gate are there and verify. -/
def checkDeps (gate : Members) : Except Exn (List PyStr) := do
  match depPaths (get (lit "deps") gate) with
  | none => .error (valueError "merge gate deps must be a string array")
  | some deps => do
    require (pyEq (get (lit "risk_level") gate) (.str (lit "L0")) || !deps.isEmpty)
      "L1-L3 Merge requires at least one strict DEP"
    let errors ← depErrors M deps
    if errors.isEmpty then .ok deps
    else .error (.value (lit "strict DEP verification failed: " ++ joinTexts (lit "; ") errors))

def legacyRollbackV1BootstrapBaseSha : PyStr := lit "f44cb5f4897f6c821f817fcf178581b43777163a"

def legacyRollbackV1BootstrapPath : PyStr :=
  lit "evidence/DEP-SDG-SECURITY-HARDENING-EXP8-001/rollback.md"

def rollbackV2PostconditionBootstrapBaseSha :
    PyStr := lit "ce08f48c5d7c4232e9c0154dabb3b43c63b920c1"

def rollbackV2PostconditionBootstrapPath : PyStr :=
  lit "evidence/DEP-RELEASE-READINESS-HARDENING-010/rollback.md"

/-- The rollback record of the reviewed head. -/
def rollbackRecord (gate : Members) (headSha baseSha : PyStr) : Except Exn (Option Fields) := do
  let relative := get (lit "rollback_path") gate
  let _ ← M.boundedPath relative (lit "rollback")
  let path := match relative with
    | .str s => s
    | _ => []
  match ← noneOnValue (Git.git M.git [lit "show", headSha ++ lit ":" ++ path]) with
  | none => .error (valueError "rollback record is missing or incomplete")
  | some text => .ok (rollbackContract text
      (baseSha == legacyRollbackV1BootstrapBaseSha && path == legacyRollbackV1BootstrapPath)
      (baseSha == rollbackV2PostconditionBootstrapBaseSha
        && path == rollbackV2PostconditionBootstrapPath))

/-- The rollback record, and the commit it reverts: in the range, and cleanly revertible. -/
def checkRollback (gate : Members) (headSha baseSha : PyStr) : Except Exn Fields := do
  match ← rollbackRecord M gate headSha baseSha with
  | none => .error (valueError "rollback record is missing or incomplete")
  | some rollback =>
    let rollbackRef := (fieldOf "rollback_ref" rollback).getD []
    if !(← rollbackRefIsInCandidateRange M rollbackRef baseSha headSha) then
      .error (valueError "rollback record is missing or incomplete")
    else if !(← rollbackRefIsCleanlyRevertible M rollbackRef baseSha headSha) then
      .error (valueError "rollback record is missing or incomplete")
    else .ok rollback

/-- Raw evidence among the paths of the commits. -/
def trackedRaw : List PyStr → Except Exn (List PyStr)
  | [] => .ok []
  | commit :: rest => do
    let listed ← Git.git M.git [lit "ls-tree", lit "-r", lit "--name-only", commit]
    let others ← trackedRaw rest
    .ok ((splitLines listed).filter
      (fun path => containsText (lit "/private/raw/") (lit "/" ++ path))
      ++ others)

/-- No raw evidence may be tracked. -/
def refuseRaw (raw : List PyStr) : Except Exn Unit :=
  if raw.isEmpty then .ok ()
  else .error (.value (lit "raw evidence is tracked by Git: " ++ joinTexts (lit ", ") raw))

/-- `_is_protected`. -/
def isProtected (path : PyStr) (patterns : List PyStr) : Bool :=
  patterns.any fun pattern =>
    if pattern.getLast? = some (cp 0x2F) then pattern.isPrefixOf path else path == pattern

/-- The review of the protected files that have changed. -/
def checkReview (gate : Members) (baseRef digest : PyStr) (isProtectedChange : Bool) :
    Except Exn Json :=
  let review := get (lit "protected_file_review") gate
  if isProtectedChange then
    match review with
    | .str s =>
      if s.isEmpty then
        .error (valueError "protected-file changes require a signed independent review receipt")
      else M.verifyReview s (get (lit "builder_id") gate) digest gate baseRef
    | _ => .error (valueError "protected-file changes require a signed independent review receipt")
  else
    match review with
    | .null => .ok .null
    | _ => .error
        (valueError "protected_file_review must be null when no protected file changed")

/-- `verify_merge`. -/
def verifyMerge (C : Crypto) (baseRef gatePath : PyStr) (runChecks : Bool) :
    Except Exn Members := do
  let status ← Git.git M.git [lit "status", lit "--porcelain"]
  require status.isEmpty "merge verification requires a clean exact-HEAD worktree"
  let headSha ← Git.git M.git [lit "rev-parse", lit "HEAD"]
  let baseSha ← Git.git M.git [lit "rev-parse", lit "--verify", peeled baseRef]
  let gate ← M.loadGate gatePath
  let reviewedHead ← checkGate gate baseSha
  let audited ← onlyAuditChangesAfterReview M.git reviewedHead headSha
  require audited "merge gate head_sha is not the exact reviewed Head or has non-audit descendants"
  require (text? (get (lit "builder_id") gate)).isSome "merge gate builder_id is required"
  let actualDigest ← changeDigest M C baseRef
  require (pyEq (get (lit "change_digest") gate) (.str actualDigest))
    "merge gate change_digest does not match the exact executable change"
  let deps ← checkDeps M gate
  let rollback ← checkRollback M gate reviewedHead baseSha
  let green ← if runChecks then M.postconditionIsGreen rollback reviewedHead else .ok true
  require green "rollback post-condition did not return to Green"
  let commits ← Git.git M.git [lit "rev-list", baseRef ++ lit "..HEAD"]
  refuseRaw (sortedSet (← trackedRaw M (splitLines commits)))
  let changed ← changedPaths M.git baseRef (lit "HEAD")
  let patterns ← if changed.isEmpty then .ok [] else M.protectedPatterns baseRef
  let isProtectedPaths := changed.filter (isProtected · patterns)
  let reviewer ← checkReview M gate baseRef actualDigest (!isProtectedPaths.isEmpty)
  let localGreen ← if runChecks then M.runLocalGate
    else .ok [(lit "ok", .bool true), (lit "commands", .arr [])]
  require (truthy (get (lit "ok") localGreen)) "Local Green Gate did not pass"
  .ok [(lit "ok", .bool true), (lit "state", .str (lit "MERGE_READY")),
    (lit "head_sha", .str headSha),
    (lit "base_ref", .str baseRef), (lit "base_sha", .str baseSha),
    (lit "reviewed_head_sha", .str reviewedHead), (lit "change_digest", .str actualDigest),
    (lit "risk_level", get (lit "risk_level") gate), (lit "deps_verified", .arr (deps.map .str)),
    (lit "protected_files_changed", .arr (isProtectedPaths.map .str)),
    (lit "protected_file_reviewer", reviewer), (lit "local_green", .obj localGreen)]

end SddGov.MergeGate
