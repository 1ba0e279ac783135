import SddGov.Autonomy.PlainDecision
import SddGov.Effect.Phases
import SddGov.TrustedRunner.ChildResult

/-!
# Executing an operation

`TrustedRunner.execute`: the approval is consumed under the runner's lock, the
credential is opened, the child process runs, everything is cleaned up, and the
flags as they then are get signed. An exception can leave any phase; it is
caught by `execute`, and the flags keep what was set before it (`Progress`).

The reads of files that have to be stable and private, the sealed bundle and
the signing key are calls of their own, each with all its outcomes. The import
of the approval and the escalation are the programs of `Autonomy`. The texts of
numbers that `Decimal` reads are a parameter.
-/

namespace SddGov.TrustedRunner

open SddGov.Effect SddGov.Python SddGov.Governance
open SddGov.Autonomy (Verdict importOperationApproval evaluateEscalation duplicateName)

/-! ## Calls -/

/-- The descriptors that `_run_child` owns. -/
inductive Descriptor
  | stdout
  | stderr
  | secretRead
  | secretWrite
  deriving DecidableEq

/-- The files that the child leaves. -/
inductive Artifact
  | stdout
  | stderr
  | result
  deriving DecidableEq

inductive Signal
  | term
  | kill
  deriving DecidableEq

inductive Waited
  | exited (code : Int)
  | timedOut
  deriving DecidableEq

inductive RunnerOp
  /-- `_authority_hash` -/
  | authorityHash
  /-- `_verify_bundle` -/
  | verifyBundle (operation : Members)
  /-- the directory of `_approval_consumption_lock` -/
  | prepareDecisions
  | openLockFile
  /-- whether `os.fstat` finds a private regular file -/
  | lockFileIsPrivate
  /-- `fcntl.flock` -/
  | lockApproval
  | unlockApproval
  | closeLockFile
  | createApproval
  | writeApproval (raw : Bytes)
  | closeApproval
  | unlinkApproval
  /-- `_verify_runtime` -/
  | verifyRuntime
  /-- `_stable_read_secret` -/
  | readCredential
  | makeIsolationRoot
  | protectIsolationRoot
  | makeHome
  /-- `_write_private` -/
  | writeInput (raw : Bytes)
  | findLauncher
  | openOutput (d : Descriptor)
  | openPipe
  | writePipe (secret : Bytes)
  /-- `subprocess.Popen` -/
  | startChild
  | wait (seconds : Nat)
  | signal (s : Signal)
  | close (d : Descriptor)
  /-- `_stable_read_regular` -/
  | readArtifact (a : Artifact)
  /-- milliseconds since the start -/
  | elapsed
  /-- `shutil.rmtree` -/
  | removeIsolationRoot
  | isolationRootExists
  /-- the signature of `_sign_result` -/
  | sign (raw : Bytes)

abbrev localSig : Sig where
  Op := RunnerOp
  Resp
    | .authorityHash => Except RunnerError PyStr
    | .verifyBundle _ => Except RunnerError Unit
    | .prepareDecisions => Except RunnerError Unit
    | .lockFileIsPrivate => Sys Bool
    | .verifyRuntime => Except RunnerError Unit
    | .readCredential => Except RunnerError Bytes
    | .writePipe _ => Sys Nat
    | .wait _ => Sys Waited
    | .readArtifact _ => Except RunnerError Bytes
    | .elapsed => Nat
    | .isolationRootExists => Sys Bool
    | .sign _ => Except RunnerError Bytes
    | _ => Sys Unit

abbrev runnerSig : Sig := hostSig.sum localSig

/-- What a phase raises: `_ChildRunFailure`, or what the checks raise. -/
inductive RunFailure
  | child (reason : PyStr) (descriptorsClosed : Bool)
  | runner (e : RunnerError)

abbrev RunnerProg (α : Type) := Prog runnerSig RunFailure α

section Calls

variable {α : Type}

def tell (o : RunnerOp) : RunnerProg (localSig.Resp o) :=
    @Prog.perform runnerSig RunFailure (.inr o)

/-- A pure check. -/
def checked (x : Except RunnerError α) : RunnerProg α :=
  match x with
  | .ok a => .ret a
  | .error e => .raise (.runner e)

/-- A call that fails with an `OSError`. -/
def system (p : RunnerProg (Sys α)) : RunnerProg α :=
  p.handle
    (fun
      | .ok a => .ret a
      | .error e => .raise (.runner (.raised (.os e))))
    .raise

/-- A call that fails like a check. -/
def stable (p : RunnerProg (Except RunnerError α)) : RunnerProg α := p.handle checked .raise

/-- A program of `autonomy`; its `ValueError` and `FileNotFoundError` are violations. -/
def verified (p : HostProg α) : RunnerProg α :=
  p.inl.handle .ret fun
    | .value _ => checked (violation "approval_verification_failed")
    | .os .missing => checked (violation "approval_verification_failed")
    | e => .raise (.runner (.raised e))

end Calls

/-! ## The approval -/

/-- What a result is, as a dictionary. -/
def verdictMembers (v : Verdict) : Members :=
  [(lit "state", .str (match v.state with
      | .continue_ => lit "CONTINUE"
      | .blocked => lit "BLOCKED"
      | .actionRequired => lit "ACTION_REQUIRED")),
    (lit "requires_response", .bool v.requiresResponse), (lit "reason", .str v.reason)]
  ++ (v.nextAction.toList.map fun action => (lit "next_action", .str action)) ++ v.details

/-- `decision_request` -/
def decisionRequest (v : ValidatedRequest) (operationPayload : Members) : Members :=
  [field "risk_level" "L3", field "category" "high_risk_operation",
    (lit "effects", .obj [(lit "high_privilege", .bool true)]),
      (lit "operation_id", .str v.operationId),
    (lit "approval_id", .str v.approvalId), (lit "operation_payload", .obj operationPayload),
    (lit "decision_package", .obj [(lit "decision_id", .str v.approvalId), field "risk_level" "L3",
      field "why_human_input_is_required"
        "The exact operation may read one secret and perform one metered inference.",
      (lit "what_agent_already_verified", .arr [
        .str (lit "The sealed bundle and external Runner bindings match the exact operation"),
        .str (lit "The Runner owns credential access, child lifetime, and rollback")]),
      (lit "options", .arr [
        .obj [field "label" "approve", field "description" "Run exactly this one-use operation."],
        .obj [field "label" "deny", field "description" "Keep the operation blocked."]]),
      field "recommended" "approve",
      field "why" "Only an exact signed receipt can cross the trusted boundary.",
      field "impact_if_no_decision" "No credential is opened and no child starts.",
      (lit "scope_of_approval", .str v.operationId),
        (lit "operation_payload", .obj operationPayload)])]

/-- The only result that lets the run go on. -/
def expectedVerdict (v : ValidatedRequest) (operationPayload : Members) (digest : PyStr) :
    Members :=
  [field "state" "CONTINUE", (lit "requires_response", .bool false),
    field "reason" "fresh_l3_operation_approval_verified", field "next_action" "continue",
    (lit "approval_id", .str v.approvalId), (lit "operation_id", .str v.operationId),
    (lit "authorized_operation_payload", .obj operationPayload),
      (lit "operation_payload_sha256", .str digest),
    (lit "approval_consumed", .bool true)]

/-- The authority that the operation names. -/
def expectedAuthority (v : ValidatedRequest) : Json :=
  match get (lit "external_bindings") v.operation with
  | .obj bindings => get (lit "approval_authority_identity_hash") bindings
  | _ => .null

/-- `_authority_hash()`, compared with the one of the operation. -/
def checkAuthority (v : ValidatedRequest) : RunnerProg PyStr := do
  let authority ← stable (tell .authorityHash)
  checked (check (pyEq (.str authority) (expectedAuthority v))
    "approval_authority_identity_changed")
  pure authority

section Execute

variable (C : Crypto)

/-- The fixed approver store of the host has the hash of the runner's. -/
def checkFixedAuthority (authority : PyStr) : RunnerProg Unit := do
  let loaded ← (ask (.loadControlPlane .trustedApprovers)).inl.handle .ret
    (fun e => .raise (.runner (.raised e)))
  let fixed ← checked (match loaded with
    | .ok fixed => .ok fixed
    | .error e => if e.isOsOrValue then violation "approval_verification_failed" else
        .error (.raised e))
  let hash ← checked (canonicalHash C (.obj fixed))
  checked (check (hash == authority) "approval_authority_identity_changed")

/-- The envelope goes into a file of its own. -/
def writeApproval (v : ValidatedRequest) : RunnerProg Unit := do
  system (tell .createApproval)
  Prog.tryFinally
    (match canonicalBytes (.obj v.approvalEnvelope) with
      | some raw => system (tell (.writeApproval raw))
      | none => checked (.error (.raised (valueError "canonical JSON"))))
    (system (tell .closeApproval))

/-- `approval_path.unlink()`; a file that is gone is fine. -/
def unlinkApproval : RunnerProg Unit :=
  (tell .unlinkApproval).handle
    (fun
      | .ok () => .ret ()
      | .error .missing => .ret ()
      | .error e => .raise (.runner (.raised (.os e))))
    .raise

/-- The approval is imported and used. -/
def useApproval (v : ValidatedRequest) (path : PyStr) : RunnerProg Verdict := do
  let _ ← verified (importOperationApproval C path)
  verified (evaluateEscalation C
    (decisionRequest v (approvalOperationPayload v.operation v.operationId v.planHash)))

/-- The result says that exactly this approval was used. -/
def checkVerdict (v : ValidatedRequest) (result : Verdict) : Except RunnerError Unit := do
  let operationPayload := approvalOperationPayload v.operation v.operationId v.planHash
  match canonicalBytes (.obj operationPayload) with
  | none => .error (.raised (valueError "canonical JSON"))
  | some raw =>
    check (pyEq (.obj (verdictMembers result))
      (.obj (expectedVerdict v operationPayload (C.sha256 raw))))
      "approval_not_consumed"

/-- `_consume_approval_locked` -/
def consumeApprovalLocked (path : PyStr) (v : ValidatedRequest) : RunnerProg Unit := do
  let authority ← checkAuthority v
  checkFixedAuthority C authority
  writeApproval v
  let result ← Prog.tryFinally (useApproval C v path) unlinkApproval
  let _ ← checkAuthority v
  checked (checkVerdict C v result)

/-- A call whose `OSError` says that the lock cannot be had. -/
def lockCall {α : Type} (p : RunnerProg (Sys α)) : RunnerProg α :=
  p.handle
    (fun
      | .ok a => .ret a
      | .error _ => checked (violation "approval_lock_unavailable"))
    .raise

/-- The lock on the file that has been opened. -/
def lockOpened : RunnerProg Unit := do
  let isPrivate ← lockCall (tell .lockFileIsPrivate)
  checked (check isPrivate "approval_lock_not_private_regular")
  lockCall (tell .lockApproval)

/-- `_approval_consumption_lock`, before it yields. An exception after the opening closes the
file. -/
def takeApprovalLock : RunnerProg Unit := do
  stable (tell .prepareDecisions)
  lockCall (tell .openLockFile)
  lockOpened.handle .ret fun e => do
    system (tell .closeLockFile)
    .raise e

/-- Its `finally` block. A file that cannot be unlocked is not closed. -/
def releaseApprovalLock : RunnerProg Unit := do
  system (tell .unlockApproval)
  system (tell .closeLockFile)

/-- `_consume_approval` -/
def consumeApproval (path : PyStr) (v : ValidatedRequest) : RunnerProg Unit := do
  takeApprovalLock
  Prog.tryFinally (consumeApprovalLocked C path v) releaseApprovalLock

end Execute

/-! ## The child -/

/-- The runner with what only `execute` reads. -/
structure Runner extends Bootstrap where
  allowedClientUids : List Nat
  credentialSha256 : PyStr

/-- `observation` -/
structure Observation where
  timedOut : Bool
  returnCode : Int
  stdoutHash : PyStr
  stderrHash : PyStr
  durationMs : Nat
  childOutcome : PyStr
  inferenceApplied : Bool := false
  inputTokens : Option Int := none
  outputTokens : Option Int := none
  cost : Option FiniteDecimal := none

/-- A program between the descriptors it owns: an exception carries them. -/
abbrev OwningProg (α : Type) := Prog runnerSig (List Descriptor × RunFailure) α

def owning {α : Type} (owned : List Descriptor) (p : RunnerProg α) : OwningProg α :=
  p.handle .ret fun e => .raise (owned, e)

/-- The secret goes into the pipe. Every write that does not fail takes a byte of the fuel. -/
def feedPipe : Nat → Bytes → RunnerProg Unit
  | 0, _ => .ret ()
  | fuel + 1, remaining =>
    if remaining = [] then .ret ()
    else do
      let written ← system (tell (.writePipe remaining))
      if written = 0 then checked (violation "credential_pipe_write_failed")
      else feedPipe fuel (remaining.drop written)

/-- The child is waited for, and killed where it does not end. -/
def awaitChild : RunnerProg (Bool × Int) := do
  let first ← system (tell (.wait maxDurationSeconds))
  match first with
  | .exited code => pure (false, code)
  | .timedOut => do
    system (tell (.signal .term))
    let second ← system (tell (.wait 2))
    match second with
    | .exited code => pure (true, code)
    | .timedOut => do
      system (tell (.signal .kill))
      let third ← system (tell (.wait 2))
      match third with
      | .exited code => pure (true, code)
      | .timedOut => .raise (.runner (.raised .subprocess))

/-- The `try` block of `_run_child`: whether the child timed out, and its exit status. -/
def launchChild (secret : Bytes) : OwningProg (Bool × Int) := do
  owning [] (system (tell (.openOutput .stdout)))
  owning [.stdout] (system (tell (.openOutput .stderr)))
  owning [.stdout, .stderr] (system (tell .openPipe))
  owning [.stdout, .stderr, .secretRead, .secretWrite] (feedPipe secret.length secret)
  let closed ← owning [.stdout, .stderr, .secretRead] (tell (.close .secretWrite))
  match closed with
  | .error _ => .raise ([.stdout, .stderr, .secretRead],
      .child (lit "descriptor_cleanup_failed") false)
  | .ok () => do
    owning [.stdout, .stderr, .secretRead] (system (tell .startChild))
    owning [.stdout, .stderr, .secretRead] awaitChild

/-- `close_owned` for what is left; whether everything could be closed. -/
def closeAll : List Descriptor → RunnerProg Bool
  | [] => .ret true
  | d :: rest => do
    let closed ← tell (.close d)
    let others ← closeAll rest
    pure (closed.isOk && others)

/-- The reason that a failure is reported with. -/
def RunFailure.reason : RunFailure → PyStr
  | .child reason _ => reason
  | .runner (.violation reason) => reason
  | .runner (.raised _) => lit "unexpected_error"

def RunFailure.descriptorsClosed : RunFailure → Bool
  | .child _ closed => closed
  | .runner _ => true

/-- The child from its launch to the closing of the descriptors. -/
def superviseChild (secret : Bytes) : RunnerProg (Bool × Int) :=
  (launchChild secret).handle
    (fun ended => do
      let closed ← closeAll [.stdout, .stderr, .secretRead]
      if closed then pure ended else .raise (.child (lit "descriptor_cleanup_failed") false))
    (fun failure => do
      let closed ← closeAll failure.1
      .raise (.child failure.2.reason (closed && failure.2.descriptorsClosed)))

section Run

variable (C : Crypto) (r : Runner)

/-- What the child has left behind. -/
def observe (ended : Bool × Int) : RunnerProg Observation := do
  let stdout ← stable (tell (.readArtifact .stdout))
  let stderr ← stable (tell (.readArtifact .stderr))
  let durationMs ← tell .elapsed
  let seen : Observation :=
    { timedOut := ended.1, returnCode := ended.2, stdoutHash := sha256Text C stdout,
      stderrHash := sha256Text C stderr, durationMs := durationMs,
      childOutcome := if ended.1 then lit "timed_out" else lit "failed" }
  if ended.1 || ended.2 != 0 then pure seen
  else do
    let raw ← stable (tell (.readArtifact .result))
    let result ← checked (childResult r.toBootstrap raw)
    pure { seen with
      childOutcome := result.outcome, inferenceApplied := result.inferenceApplied,
      inputTokens := result.inputTokens, outputTokens := result.outputTokens, cost := result.cost }

/-- `_run_child` -/
def runChild (v : ValidatedRequest) (secret : Bytes) : RunnerProg Observation := do
  system (tell .makeHome)
  system (tell (.writeInput v.inputPayload))
  system (tell .findLauncher)
  let ended ← superviseChild secret
  observe C r ended

/-! ## The run -/

/-- The fields of the result that change. -/
structure RunnerResult where
  operationId : Option PyStr := none
  planHash : Option PyStr := none
  completed : Bool := false
  reason : PyStr := lit "request_not_validated"
  approvalConsumed : Bool := false
  credentialMaterialOpened : Bool := false
  runtimeStarted : Bool := false
  observation : Option Observation := none
  credentialMaterialZeroized : Bool := true
  isolationRootRemoved : Bool := true
  descriptorsClosed : Bool := true

/-- An optional text. -/
def optional (s : Option PyStr) : Json := (s.map Json.str).getD .null

/-- The result as it is signed. -/
def RunnerResult.members (result : RunnerResult) : Members :=
  let seen := result.observation
  [field "contract_version" "0.1", (lit "runner_id", .str r.runnerId),
    (lit "operation_id", optional result.operationId), (lit "plan_hash", optional result.planHash),
    (lit "outcome", .str (if result.completed then lit "completed" else lit "stopped_fail_closed")),
    (lit "reason", .str result.reason), (lit "approval_consumed", .bool result.approvalConsumed),
    (lit "credential_material_opened", .bool result.credentialMaterialOpened),
    (lit "runtime_started", .bool result.runtimeStarted),
    (lit "inference_applied", .bool (seen.any (·.inferenceApplied))),
    (lit "timed_out", .bool (seen.any (·.timedOut))),
    (lit "return_code", (seen.map fun o => Json.int o.returnCode).getD .null),
    (lit "input_tokens", ((seen.bind (·.inputTokens)).map .int).getD .null),
    (lit "output_tokens", ((seen.bind (·.outputTokens)).map .int).getD .null),
    (lit "cost_usd", costJson (seen.bind (·.cost))),
      (lit "stdout_hash", optional (seen.map (·.stdoutHash))),
    (lit "stderr_hash", optional (seen.map (·.stderrHash))),
    (lit "duration_ms", .int ((seen.map (·.durationMs)).getD 0)),
    (lit "credential_material_zeroized", .bool result.credentialMaterialZeroized),
    (lit "isolation_root_removed", .bool result.isolationRootRemoved),
    (lit "descriptors_closed", .bool result.descriptorsClosed),
      (lit "promotion_applied", .bool false),
    (lit "gate_enforce_applied", .bool false), (lit "deployment_applied", .bool false)]
  ++ (seen.toList.map fun o => (lit "child_outcome", .str o.childOutcome))

/-- How far the run is: the result so far, the secret and the isolation root where they are
there. -/
structure Progress where
  result : RunnerResult := {}
  secret : Option Bytes := none
  isolated : Bool := false

/-- A program of the run: an exception carries the progress. -/
abbrev ProgressProg (α : Type) := Prog runnerSig (Progress × RunFailure) α

def during {α : Type} (s : Progress) (p : RunnerProg α) : ProgressProg α :=
  p.handle .ret fun e => .raise (s, e)

/-- The peer and the request. -/
def admitRequest (peerUid : Nat) (request : Members) : RunnerProg ValidatedRequest := do
  checked (check (r.allowedClientUids.contains peerUid) "runner_peer_uid_denied")
  checked (check (r.mode != .production || peerUid != r.serviceUid)
    "production_uid_separation_required")
  -- the approver file is read for each descriptor; its failures show where the checks look at it
  let authority ← tell .authorityHash
  let authority' ← tell .authorityHash
  checked (validateRequest C r.toBootstrap authority authority' request)

/-- `_open_credential` -/
def openCredential : RunnerProg Bytes := do
  let raw ← stable (tell .readCredential)
  checked (check (sha256Text C raw == r.credentialSha256) "credential_source_hash_mismatch")
  checked (check (20 ≤ raw.length && raw.take 3 == [byte 0x73, byte 0x6B, byte 0x2D]
    && raw.all fun b => 33 ≤ b.val && b.val ≤ 126) "credential_shape_invalid")
  pure raw

/-- The result of a run that came to its end. -/
def RunnerResult.concluded (result : RunnerResult) (seen : Observation) : RunnerResult :=
  let result := { result with runtimeStarted := true, observation := some seen }
  if seen.timedOut then { result with reason := lit "child_timeout" }
  else if seen.returnCode != 0 then { result with reason := lit "child_failed" }
  else if seen.childOutcome != lit "completed" then
    { result with reason := lit "child_stopped_fail_closed" }
  else { result with completed := true, reason := lit "exact_operation_completed" }

/-- The `try` block of `execute`. -/
def runPhases (path : PyStr) (peerUid : Nat) (request : Members) : ProgressProg Progress := do
  let v ← during {} (admitRequest C r peerUid request)
  let s : Progress :=
    { result := { operationId := some v.operationId, planHash := some v.planHash } }
  during s (stable (tell (.verifyBundle v.operation)))
  during s (consumeApproval C path v)
  let s := { s with result := { s.result with approvalConsumed := true } }
  during s (stable (tell (.verifyBundle v.operation)))
  during s (stable (tell .verifyRuntime))
  let secret ← during s (openCredential C r)
  let s := {
    s with result := { s.result with credentialMaterialOpened := true }, secret := some secret }
  during s (system (tell .makeIsolationRoot))
  let s := { s with isolated := true }
  during s (system (tell .protectIsolationRoot))
  let seen ← during s (runChild C r v secret)
  pure { s with result := s.result.concluded seen }

/-- The result after an exception. -/
def Progress.failed (s : Progress) (e : RunFailure) : Progress :=
  { s with
    result := { s.result with
      reason := e.reason
      descriptorsClosed :=
        match e with
        | .child _ closed => closed
        | .runner _ => s.result.descriptorsClosed } }

/-- The secret is overwritten; whether every byte is zero then. -/
def wiped (secret : Bytes) : Bool := (secret.map fun _ => byte 0).all (· == byte 0)

/-- The isolation root goes away. -/
def removeIsolation (s : Progress) : RunnerProg Bool :=
  if s.isolated then do
    let removed ← tell .removeIsolationRoot
    match removed with
    | .error _ => pure false
    | .ok () => do
      let left ← system (tell .isolationRootExists)
      pure (!left)
  else pure true

/-- The `finally` block of `execute`. -/
def cleanUp (s : Progress) : RunnerProg RunnerResult := do
  let zeroized := (s.secret.map wiped).getD true
  let removed ← removeIsolation s
  let result :=
    { s.result with credentialMaterialZeroized := zeroized, isolationRootRemoved := removed }
  if !zeroized || !removed then
    pure { result with completed := false, reason := lit "rollback_incomplete" }
  else pure result

/-- `_sign_result`: the result and its signature. -/
def signRun (result : RunnerResult) : RunnerProg (RunnerResult × Bytes) :=
  match canonicalBytes (.obj (result.members r)) with
  | none => checked (.error (.raised (valueError "canonical JSON")))
  | some raw => do
    let signature ← stable (tell (.sign raw))
    pure (result, signature)

/-- `TrustedRunner.execute`; the path is the one that the envelope is written to. -/
def execute (path : PyStr) (peerUid : Nat) (request : Members) :
    RunnerProg (RunnerResult × Bytes) := do
  let s ← (runPhases C r path peerUid request).handle .ret fun failure =>
    .ret (failure.1.failed failure.2)
  let result ← cleanUp s
  signRun r result

end Run

end SddGov.TrustedRunner
