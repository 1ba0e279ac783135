import SddGov.Autonomy.SingleUse
import SddGov.TrustedRunner.Execute

/-!
# The approval comes first

Nothing that touches the credential or the child is done before the approval of
exactly this operation was consumed (`privileged_approved`): the calls of `execute` are
phases, and these calls are made in the last one alone. The consumption is the
one of `Autonomy`, so two executions next to each other, and any agents beside
them, cannot live on one nonce (`children_approved`).
-/

namespace SddGov.TrustedRunner

open SddGov.Effect SddGov.Python SddGov.Governance
open SddGov.Autonomy

/-! ## Traces of the calls -/

section Calls

variable {α : Type} {t : List (Event runnerSig)}

theorem runs_checked {x : Except RunnerError α} {a : α} (h : Runs (checked x) t (.ok a)) :
    t = [] ∧ x = .ok a := by
  cases x with
  | ok b =>
    obtain ⟨rfl, hb⟩ := runs_ret h
    obtain rfl := Except.ok.inj hb
    exact ⟨rfl, rfl⟩
  | error e => exact absurd (runs_raise h).2 (by simp)

/-- A verifying program runs on the left side of the signature. -/
theorem runs_verified {p : HostProg α} {a : α} (h : Runs (verified p) t (.ok a)) :
    Runs p (leftEvents t) (.ok a) := by
  obtain ⟨t₁, t₂, y, rfl, h₁, h₂⟩ := runs_handle h
  cases y with
  | ok b =>
    obtain ⟨rfl, hb⟩ := runs_ret h₂
    obtain rfl := Except.ok.inj hb
    rw [List.append_nil]
    exact runs_inl h₁
  | error e =>
    -- every exception is raised again, as itself or as a violation
    have hraise : ∃ e', Runs (.raise e' : RunnerProg α) t₂ (.ok a) := by
      cases e with
      | value message => exact ⟨_, h₂⟩
      | os e => cases e <;> exact ⟨_, h₂⟩
      | _ => exact ⟨_, h₂⟩
    obtain ⟨e', hraise⟩ := hraise
    exact absurd (runs_raise hraise).2 (by simp)

theorem runs_during {s : Progress} {p : RunnerProg α} {a : α} (h : Runs (during s p) t (.ok a)) :
    Runs p t (.ok a) := by
  obtain ⟨t₁, t₂, y, rfl, h₁, h₂⟩ := runs_handle h
  cases y with
  | ok b =>
    obtain ⟨rfl, hb⟩ := runs_ret h₂
    obtain rfl := Except.ok.inj hb
    rw [List.append_nil]
    exact h₁
  | error e => exact absurd (runs_raise h₂).2 (by simp)

theorem runs_tell {o : RunnerOp} {x : Outcome RunFailure (localSig.Resp o)}
    (h : Runs (tell o) t x) :
    ∃ answer, t = [⟨.inr o, answer⟩] ∧ x = .ok answer := by
  obtain ⟨answer, t', rfl, hrest⟩ := runs_call h
  obtain ⟨rfl, rfl⟩ := runs_ret hrest
  exact ⟨answer, rfl, rfl⟩

/-- A call of the system that is answered was answered inside. -/
theorem runs_system {p : RunnerProg (Sys α)} {a : α} (h : Runs (system p) t (.ok a)) :
    Runs p t (.ok (.ok a)) := by
  obtain ⟨t₁, t₂, y, rfl, h₁, h₂⟩ := runs_handle h
  cases y with
  | error e => exact absurd (runs_raise h₂).2 (by simp)
  | ok answer =>
    cases answer with
    | error e => exact absurd (runs_raise h₂).2 (by simp)
    | ok b =>
      obtain ⟨rfl, hb⟩ := runs_ret h₂
      obtain rfl := Except.ok.inj hb
      rw [List.append_nil]
      exact h₁

theorem runs_check {c : Bool} {reason : String} {p : RunnerProg α} {x : Outcome RunFailure α}
    (h : Runs ((checked (check c reason)).handle (fun _ => p) .raise) t x) :
    c = true ∧ Runs p t x ∨ c = false ∧ t = [] ∧ ∃ e, x = .error e := by
  cases c with
  | true => exact .inl ⟨rfl, h⟩
  | false =>
    obtain ⟨rfl, rfl⟩ := runs_raise h
    exact .inr ⟨rfl, rfl, _, rfl⟩

variable {P : runnerSig.Op → Prop}

theorem calls_checked (x : Except RunnerError α) : (checked x).Calls P := by
  cases x <;> trivial

theorem calls_tell {o : RunnerOp} (h : P (.inr o)) : (tell o).Calls P := Prog.Calls.perform h

theorem calls_system {p : RunnerProg (Sys α)} (h : p.Calls P) : (system p).Calls P := by
  refine h.handle (fun a => ?_) fun _ => trivial
  cases a <;> trivial

theorem calls_lockCall {p : RunnerProg (Sys α)} (h : p.Calls P) : (lockCall p).Calls P := by
  refine h.handle (fun a => ?_) fun _ => trivial
  cases a <;> trivial

theorem calls_stable {p : RunnerProg (Except RunnerError α)} (h : p.Calls P) : (stable p).Calls P :=
  h.handle (fun _ => calls_checked _) fun _ => trivial

theorem calls_verified (h : ∀ o, P (.inl o)) (p : HostProg α) : (verified p).Calls P := by
  refine (calls_inl h p).handle (fun _ => trivial) fun e => ?_
  cases e with
  | value message => exact calls_checked _
  | os e => cases e <;> trivial
  | _ => trivial

theorem calls_during {s : Progress} {p : RunnerProg α} (h : p.Calls P) : (during s p).Calls P :=
  h.handle (fun _ => trivial) fun _ => trivial

end Calls

/-! ## The approval is consumed -/

section Approval

variable {C : Crypto} {path : PyStr} {v : ValidatedRequest}

/-- A longer trace along which it was used. -/
theorem Authorizes.within {approvalId operationId operationPayload : Json} {o : VerifiedOperation}
    {t₁ t₂ t₃ : List (Event hostSig)}
    (h : Authorizes C approvalId operationId operationPayload o t₂) :
    Authorizes C approvalId operationId operationPayload o (t₁ ++ t₂ ++ t₃) := by
  obtain ⟨before, verifying, consuming, after, data, store, row, rfl, hmem, hstore, hrow, hverify,
    hconsume⟩ := h.stored
  refine ⟨⟨t₁ ++ before, verifying, consuming, after ++ t₃, data, store, row, ?_, ?_, hstore, hrow,
    hverify, hconsume⟩,
    h.approval, h.operation, h.digest⟩
  · simp
  · exact List.mem_append_right _ hmem

/-- The approval of the request was used along `t`. -/
def ValidatedRequest.Approved (C : Crypto) (v : ValidatedRequest) (o : VerifiedOperation)
    (t : List (Event hostSig)) : Prop :=
  Authorizes C (.str v.approvalId) (.str v.operationId)
    (.obj (approvalOperationPayload v.operation v.operationId v.planHash)) o t

theorem ValidatedRequest.Approved.within {o : VerifiedOperation} {t₁ t₂ t₃ : List (Event runnerSig)}
    (h : v.Approved C o (leftEvents t₂)) : v.Approved C o (leftEvents (t₁ ++ t₂ ++ t₃)) := by
  rw [leftEvents_append, leftEvents_append]
  exact Authorizes.within h

theorem checkVerdict_ok {result : Verdict} (h : checkVerdict C v result = .ok ()) :
    result.reason = freshApproval := by
  unfold checkVerdict at h
  dsimp only at h
  split at h
  · simp at h
  · have heq := check_ok.mp h
    have hreason := @pyEq_get _ _ heq (lit "reason") rfl
    exact Json.str.inj ((pyEq_str_right _ _).mp hreason)

/-- Where the approval is consumed, the calls to the host have approved the request. -/
theorem consumeApproval_ok {t : List (Event runnerSig)}
    (h : Runs (consumeApproval C path v) t (.ok ())) :
    ∃ o, v.Approved C o (leftEvents t) := by
  obtain ⟨t₁, t₂, _, rfl, -, h⟩ := runs_bind h
  obtain ⟨t₃, t₄, rfl, h, -⟩ := runs_tryFinally h
  obtain ⟨t₅, t₆, authority, rfl, -, h⟩ := runs_bind h
  obtain ⟨t₇, t₈, _, rfl, -, h⟩ := runs_bind h
  obtain ⟨t₉, t₁₀, _, rfl, -, h⟩ := runs_bind h
  obtain ⟨t₁₁, t₁₂, result, rfl, huse, h⟩ := runs_bind h
  obtain ⟨t₁₃, t₁₄, _, rfl, -, hverdict⟩ := runs_bind h
  obtain ⟨t₁₅, t₁₆, rfl, huse, -⟩ := runs_tryFinally huse
  obtain ⟨t₁₇, t₁₈, _, rfl, -, heval⟩ := runs_bind huse
  obtain ⟨-, hverdict⟩ := runs_checked hverdict
  obtain ⟨r, o, hscreen, ho⟩ := evaluateEscalation_fresh (runs_verified heval)
    (checkVerdict_ok hverdict)
  have hmembers := (readRequest_ok (screen_ok hscreen).1).1
  have happroved : v.Approved C o (leftEvents t₁₈) := by
    unfold Request.Authorized Request.field at ho
    rw [hmembers] at ho
    exact ho
  have hwithin := @ValidatedRequest.Approved.within C v o (t₁ ++ t₅ ++ t₇ ++ t₉ ++ t₁₇) t₁₈
    (t₁₆ ++ t₁₃ ++ t₁₄ ++ t₄) happroved
  simp only [List.append_assoc] at hwithin ⊢
  exact ⟨o, hwithin⟩

end Approval

/-! ## Privileged calls -/

/-- The calls about the runtime, the credential, the isolation root and the child: everything
between the consumption of the approval and the signing, the removal of the root included. -/
def isPrivileged : runnerSig.Op → Bool
  | .inl _ => false
  | .inr .verifyRuntime => true
  | .inr .readCredential => true
  | .inr .makeIsolationRoot => true
  | .inr .protectIsolationRoot => true
  | .inr .makeHome => true
  | .inr (.writeInput _) => true
  | .inr .findLauncher => true
  | .inr (.openOutput _) => true
  | .inr .openPipe => true
  | .inr (.writePipe _) => true
  | .inr .startChild => true
  | .inr (.wait _) => true
  | .inr (.signal _) => true
  | .inr (.close _) => true
  | .inr (.readArtifact _) => true
  | .inr .elapsed => true
  | .inr .removeIsolationRoot => true
  | .inr .isolationRootExists => true
  | .inr _ => false

/-- Every other call. -/
abbrev Unprivileged (o : runnerSig.Op) : Prop := ¬ isPrivileged o = true

section Execution

variable {C : Crypto} {r : Runner} {path : PyStr} {peerUid : Nat} {request : Members}
    {v : ValidatedRequest}

/-- What the peer and the request were checked for. -/
structure Admitted (C : Crypto) (r : Runner) (peerUid : Nat) (request : Members)
    (v : ValidatedRequest) : Prop where
  peer : peerUid ∈ r.allowedClientUids
  separate : r.mode = .production → peerUid ≠ r.serviceUid
  validated : ∃ authority authority', validateRequest C r.toBootstrap authority authority'
    request = .ok v

/-- A request that is admitted has passed the checks before the first effect. -/
theorem admitRequest_ok {t : List (Event runnerSig)}
    (h : Runs (admitRequest C r peerUid request) t (.ok v)) :
    Admitted C r peerUid request v := by
  obtain ⟨_, _, _, -, hpeer, h⟩ := runs_bind h
  obtain ⟨_, _, _, -, hseparate, h⟩ := runs_bind h
  obtain ⟨_, _, authority, -, -, h⟩ := runs_bind h
  obtain ⟨_, _, authority', -, -, h⟩ := runs_bind h
  refine ⟨?_, ?_, authority, authority', (runs_checked h).2⟩
  · exact List.contains_iff_mem.mp (check_ok.mp (runs_checked hpeer).2)
  · intro hmode
    have hne := check_ok.mp (runs_checked hseparate).2
    rw [hmode] at hne
    simpa using hne

/-! The calls of the phases. -/

section Phases

variable {P : runnerSig.Op → Prop}

theorem admitRequest_calls (h : P (.inr .authorityHash)) :
    (admitRequest C r peerUid request).Calls P := by
  refine (calls_checked _).bind fun _ => (calls_checked _).bind fun _ => ?_
  exact (calls_tell h).bind fun _ => (calls_tell h).bind fun _ => calls_checked _

theorem checkAuthority_calls (h : P (.inr .authorityHash)) : (checkAuthority v).Calls P :=
  (calls_stable (calls_tell h)).bind fun _ => (calls_checked _).bind fun _ => trivial

theorem takeApprovalLock_calls (hp : P (.inr .prepareDecisions)) (ho : P (.inr .openLockFile))
    (hi : P (.inr .lockFileIsPrivate)) (hl : P (.inr .lockApproval))
    (hc : P (.inr .closeLockFile)) :
    takeApprovalLock.Calls P := by
  refine (calls_stable (calls_tell hp)).bind fun _ =>
    (calls_lockCall (calls_tell ho)).bind fun _ => ?_
  refine Prog.Calls.handle ?_ (fun _ => trivial) fun _ =>
    (calls_system (calls_tell hc)).bind fun _ => trivial
  refine (calls_lockCall (calls_tell hi)).bind fun _ => (calls_checked _).bind fun _ => ?_
  exact calls_lockCall (calls_tell hl)

theorem releaseApprovalLock_calls (hu : P (.inr .unlockApproval)) (hc : P (.inr .closeLockFile)) :
    releaseApprovalLock.Calls P :=
  (calls_system (calls_tell hu)).bind fun _ => calls_system (calls_tell hc)

theorem checkFixedAuthority_calls (h : ∀ o, P (.inl o)) (authority : PyStr) :
    (checkFixedAuthority C authority).Calls P := by
  refine Prog.Calls.bind ?_ fun _ => (calls_checked _).bind fun _ => (calls_checked _).bind fun _ =>
    calls_checked _
  exact (calls_inl h _).handle (fun _ => trivial) fun _ => trivial

theorem writeApproval_calls (hcreate : P (.inr .createApproval))
    (hwrite : ∀ raw, P (.inr (.writeApproval raw)))
    (hclose : P (.inr .closeApproval)) : (writeApproval v).Calls P := by
  refine (calls_system (calls_tell hcreate)).bind fun _ =>
    Prog.Calls.tryFinally ?_ (calls_system (calls_tell hclose))
  split
  · exact calls_system (calls_tell (hwrite _))
  · exact calls_checked _

theorem unlinkApproval_calls (h : P (.inr .unlinkApproval)) : unlinkApproval.Calls P := by
  refine (calls_tell h).handle (fun answer => ?_) fun _ => trivial
  cases answer with
  | ok => trivial
  | error e => cases e <;> trivial

theorem useApproval_calls (h : ∀ o, P (.inl o)) : (useApproval C v path).Calls P :=
  (calls_verified h _).bind fun _ => calls_verified h _

/-- Awaiting the child makes only waits and signals. -/
theorem awaitChild_calls (hw : ∀ seconds, P (.inr (.wait seconds)))
    (hs : ∀ s, P (.inr (.signal s))) :
    awaitChild.Calls P := by
  have hwait (n : Nat) : (system (tell (.wait n))).Calls P := calls_system (calls_tell (hw n))
  have hsignal (s : Signal) : (system (tell (.signal s))).Calls P :=
    calls_system (calls_tell (hs s))
  refine (hwait _).bind fun first => ?_
  cases first with
  | exited code => trivial
  | timedOut =>
    refine (hsignal _).bind fun _ => (hwait _).bind fun second => ?_
    cases second with
    | exited code => trivial
    | timedOut =>
      refine (hsignal _).bind fun _ => (hwait _).bind fun third => ?_
      cases third <;> trivial

theorem feedPipe_calls (h : ∀ raw, P (.inr (.writePipe raw))) (fuel : Nat) (secret : Bytes) :
    (feedPipe fuel secret).Calls P := by
  induction fuel generalizing secret with
  | zero => trivial
  | succ fuel ih =>
    refine Prog.Calls.ite trivial ((calls_system (calls_tell (h _))).bind fun written => ?_)
    exact Prog.Calls.ite (calls_checked _) (ih _)

theorem closeAll_calls (h : ∀ d, P (.inr (.close d))) (owned : List Descriptor) :
    (closeAll owned).Calls P := by
  induction owned with
  | nil => trivial
  | cons d owned ih => exact (calls_tell (h d)).bind fun _ => ih.bind fun _ => trivial

theorem observe_calls (h : ∀ a, P (.inr (.readArtifact a))) (he : P (.inr .elapsed))
    (ended : Bool × Int) :
    (observe C r ended).Calls P := by
  have hread (a : Artifact) : (stable (tell (.readArtifact a))).Calls P :=
    calls_stable (calls_tell (h a))
  refine (hread _).bind fun _ => (hread _).bind fun _ => (calls_tell he).bind fun _ => ?_
  exact Prog.Calls.ite trivial ((hread _).bind fun _ => (calls_checked _).bind fun _ => trivial)

theorem openCredential_calls (h : P (.inr .readCredential)) : (openCredential C r).Calls P :=
  (calls_stable (calls_tell h)).bind fun _ => (calls_checked _).bind fun _ =>
    (calls_checked _).bind fun _ => trivial

theorem removeIsolation_calls (hr : P (.inr .removeIsolationRoot))
    (he : P (.inr .isolationRootExists))
    (s : Progress) : (removeIsolation s).Calls P := by
  refine Prog.Calls.ite ((calls_tell hr).bind fun answer => ?_) trivial
  cases answer with
  | error e => trivial
  | ok => exact (calls_system (calls_tell he)).bind fun _ => trivial

theorem signRun_calls (h : ∀ raw, P (.inr (.sign raw))) (result : RunnerResult) :
    (signRun r result).Calls P := by
  unfold signRun
  split
  · exact calls_checked _
  · exact (calls_stable (calls_tell (h _))).bind fun _ => trivial

/-- What is owned meanwhile changes nothing about the calls. -/
theorem calls_owning {α : Type} {owned : List Descriptor} {p : RunnerProg α} (h : p.Calls P) :
    (owning owned p).Calls P :=
  h.handle (fun _ => trivial) fun _ => trivial

end Phases

theorem consumeApproval_calls : (consumeApproval C path v).Calls Unprivileged := by
  have hno {o : RunnerOp} (h : isPrivileged (.inr o) = false) : Unprivileged (.inr o) :=
    Bool.eq_false_iff.mp h
  have hhost : ∀ o : hostSig.Op, Unprivileged (.inl o) := fun _ => Bool.false_ne_true
  refine (takeApprovalLock_calls (hno rfl) (hno rfl) (hno rfl) (hno rfl) (hno rfl)).bind fun _ =>
    Prog.Calls.tryFinally ?_ (releaseApprovalLock_calls (hno rfl) (hno rfl))
  refine (checkAuthority_calls (hno rfl)).bind fun _ =>
    (checkFixedAuthority_calls hhost _).bind fun _ => ?_
  refine (writeApproval_calls (hno rfl) (fun _ => hno rfl) (hno rfl)).bind fun _ => ?_
  refine (Prog.Calls.tryFinally (useApproval_calls hhost) (unlinkApproval_calls (hno rfl))).bind
    fun _ => ?_
  exact (checkAuthority_calls (hno rfl)).bind fun _ => calls_checked _

/-- The end of an execution: the cleaning up, and the signature. -/
theorem ending_calls {P : runnerSig.Op → Prop} {s : Progress} (hr : (removeIsolation s).Calls P)
    (hs : ∀ raw, P (.inr (.sign raw))) :
    Prog.Calls P (do
      let result ← cleanUp s
      signRun r result) := by
  refine Prog.Calls.bind ?_ fun _ => signRun_calls hs _
  exact hr.bind fun _ => Prog.Calls.ite trivial trivial

/-- Where no root was made, there is nothing to remove. -/
theorem ending_unprivileged {s : Progress} (hs : s.isolated = false) :
    Prog.Calls Unprivileged (do
      let result ← cleanUp s
      signRun r result) := by
  refine ending_calls ?_ fun _ => Bool.false_ne_true
  unfold removeIsolation
  rw [if_neg (by simp [hs])]
  trivial

/-- A check that ended well was answered so. -/
theorem runs_verifyBundle {t : List (Event runnerSig)}
    (h : Runs (stable (tell (.verifyBundle v.operation))) t (.ok ())) :
    (⟨.inr (.verifyBundle v.operation), .ok ()⟩ : Event runnerSig) ∈ t := by
  obtain ⟨t₁, t₂, y, rfl, h₁, h₂⟩ := runs_handle h
  obtain ⟨answer, rfl, rfl⟩ := runs_tell h₁
  obtain ⟨-, rfl⟩ := runs_checked h₂
  exact List.mem_append_left _ (List.mem_singleton.mpr rfl)

/-- One phase: an exception leaves with the progress, or it goes on. -/
theorem runs_phase {α : Type} {t : List (Event runnerSig)} {s : Progress} {p : RunnerProg α}
    {f : α → ProgressProg Progress} {y : Outcome (Progress × RunFailure) Progress}
    (h : Runs ((during s p).handle f .raise) t y) :
    (∃ e, Runs p t (.error e) ∧ y = .error (s, e))
      ∨ ∃ t₁ t₂ a, t = t₁ ++ t₂ ∧ Runs p t₁ (.ok a) ∧ Runs (f a) t₂ y := by
  obtain ⟨t₁, t₂, z, rfl, h₁, h₂⟩ := runs_handle h
  obtain ⟨t₃, t₄, w, rfl, h₃, h₄⟩ := runs_handle h₁
  cases w with
  | ok a =>
    obtain ⟨rfl, rfl⟩ := runs_ret h₄
    exact .inr ⟨t₃ ++ [], t₂, a, rfl, by simpa using h₃, h₂⟩
  | error e =>
    obtain ⟨rfl, rfl⟩ := runs_raise h₄
    obtain ⟨rfl, rfl⟩ := runs_raise h₂
    exact .inl ⟨e, by simpa using h₃, rfl⟩

/-- The progress that the cleaning up starts from. -/
def progressOf : Outcome (Progress × RunFailure) Progress → Progress
  | .ok s => s
  | .error failure => failure.1.failed failure.2

/-- The `except` blocks of `execute` raise nothing. -/
theorem runs_phases {t : List (Event runnerSig)} {x : Outcome RunFailure Progress}
    (h : Runs ((runPhases C r path peerUid request).handle .ret fun failure =>
      .ret (failure.1.failed failure.2)) t x) :
    ∃ y, Runs (runPhases C r path peerUid request) t y ∧ x = .ok (progressOf y) := by
  obtain ⟨t₁, t₂, y, rfl, h₁, h₂⟩ := runs_handle h
  cases y with
  | ok s =>
    obtain ⟨rfl, rfl⟩ := runs_ret h₂
    exact ⟨.ok s, by simpa using h₁, rfl⟩
  | error failure =>
    obtain ⟨rfl, rfl⟩ := runs_ret h₂
    exact ⟨.error failure, by simpa using h₁, rfl⟩

/-- An isolation root that is there to be removed has been made. -/
theorem runPhases_isolated {t : List (Event runnerSig)}
    {y : Outcome (Progress × RunFailure) Progress}
    (h : Runs (runPhases C r path peerUid request) t y) (hy : (progressOf y).isolated = true) :
    (⟨.inr .makeIsolationRoot, .ok ()⟩ : Event runnerSig) ∈ t := by
  have hnot {s : Progress} {e : RunFailure} (hs : s.isolated = false) :
    ¬ (progressOf (.error (s, e))).isolated = true := by
    simp [progressOf, Progress.failed, hs]
  rcases runs_phase h with ⟨e, -, rfl⟩ | ⟨t₁, t, v, rfl, -, h⟩
  · exact absurd hy (hnot rfl)
  rcases runs_phase h with ⟨e, -, rfl⟩ | ⟨t₂, t, _, rfl, -, h⟩
  · exact absurd hy (hnot rfl)
  rcases runs_phase h with ⟨e, -, rfl⟩ | ⟨t₃, t, _, rfl, -, h⟩
  · exact absurd hy (hnot rfl)
  rcases runs_phase h with ⟨e, -, rfl⟩ | ⟨t₄, t, _, rfl, -, h⟩
  · exact absurd hy (hnot rfl)
  rcases runs_phase h with ⟨e, -, rfl⟩ | ⟨t₅, t, _, rfl, -, h⟩
  · exact absurd hy (hnot rfl)
  rcases runs_phase h with ⟨e, -, rfl⟩ | ⟨t₆, t, secret, rfl, -, h⟩
  · exact absurd hy (hnot rfl)
  rcases runs_phase h with ⟨e, -, rfl⟩ | ⟨t₇, t, _, rfl, hmake, -⟩
  · exact absurd hy (hnot rfl)
  obtain ⟨answer, rfl, hanswer⟩ := runs_tell (runs_system hmake)
  obtain rfl := Except.ok.inj hanswer
  simp

/-- The phases make a privileged call after the approval was consumed. -/
theorem phases_approved {before after : List (Event runnerSig)} {e : Event runnerSig}
    {y : Outcome (Progress × RunFailure) Progress}
    (h : Runs (runPhases C r path peerUid request) (before ++ e :: after) y)
    (he : isPrivileged e.1 = true) :
    ∃ v o, Admitted C r peerUid request v
      ∧ (⟨.inr (.verifyBundle v.operation), .ok ()⟩ : Event runnerSig) ∈ before
      ∧ v.Approved C o (leftEvents before) := by
  obtain ⟨v, t₁, before, rfl, hadmit, h⟩ := runs_reached (P := (isPrivileged · = true)) h he
    (calls_during (admitRequest_calls Bool.false_ne_true)) fun _ => trivial
  obtain ⟨_, t₂, before, rfl, hbundle, h⟩ := runs_reached (P := (isPrivileged · = true)) h he
    (calls_during (calls_stable (calls_tell Bool.false_ne_true))) fun _ => trivial
  obtain ⟨_, t₃, before, rfl, hconsume, h⟩ := runs_reached (P := (isPrivileged · = true)) h he
    (calls_during consumeApproval_calls) fun _ => trivial
  obtain ⟨o, ho⟩ := consumeApproval_ok (runs_during hconsume)
  refine ⟨v, o, admitRequest_ok (runs_during hadmit), ?_, ?_⟩
  · exact List.mem_append_right _ (List.mem_append_left _ (runs_verifyBundle (runs_during hbundle)))
  · have hwithin := @ValidatedRequest.Approved.within C v o (t₁ ++ t₂) t₃ before ho
    simp only [List.append_assoc] at hwithin ⊢
    exact hwithin

/-- **Before any privileged call the approval was consumed.** Whatever is answered, where `execute`
makes one, the peer and the request have been admitted, the bundle was the operation's, and the
approval of exactly this operation was used, all of it earlier in the trace.-/
theorem privileged_approved {before after : List (Event runnerSig)} {e : Event runnerSig}
    {x : Outcome RunFailure (RunnerResult × Bytes)}
    (h : Runs (execute C r path peerUid request) (before ++ e :: after) x)
    (he : isPrivileged e.1 = true) :
    ∃ v o, Admitted C r peerUid request v
      ∧ (⟨.inr (.verifyBundle v.operation), .ok ()⟩ : Event runnerSig) ∈ before
      ∧ v.Approved C o (leftEvents before) := by
  rcases runs_split h with ⟨rest, y, h⟩ | ⟨t₁, t₂, y, rfl, hphases, hending⟩
  · obtain ⟨rest, y, h⟩ := runs_within (P := (isPrivileged · = true)) h he (fun _ => trivial)
      fun _ => trivial
    exact phases_approved h he
  · -- the cleaning up removes a root that was made, and the making was such a call
    obtain ⟨y, hrun, rfl⟩ := runs_phases hphases
    have hisolated : (progressOf y).isolated = true := by
      by_contra hs
      exact (ending_unprivileged (Bool.not_eq_true _ ▸ hs)).runs hending e (by simp) he
    obtain ⟨before, after', rfl⟩ := List.append_of_mem (runPhases_isolated hrun hisolated)
    obtain ⟨v, o, hadmitted, hbundle, happroved⟩ := phases_approved hrun rfl
    refine ⟨v, o, hadmitted, ?_, ?_⟩
    · exact List.mem_append_left _ (List.mem_append_left _ hbundle)
    · rw [List.append_assoc]
      exact @ValidatedRequest.Approved.within C v o [] before _ happroved

/-! ## One child -/

/-- A child is started. -/
def isStart : Event runnerSig → Bool
  | ⟨.inr .startChild, _⟩ => true
  | _ => false

/-- No child is started. -/
abbrev NoStart (o : runnerSig.Op) : Prop := ∀ answer, isStart ⟨o, answer⟩ = false

theorem noStart_of_unprivileged {o : runnerSig.Op} (h : Unprivileged o) : NoStart o := by
  intro answer
  rcases o with o | o
  · rfl
  · cases o with
    | startChild => exact absurd rfl h
    | _ => rfl

theorem once_owning {α : Type} {n : Nat} {owned : List Descriptor} {p : RunnerProg α}
    (h : AtMost isStart n p) :
    AtMost isStart n (owning owned p) :=
  h.before (fun _ => trivial) fun _ => trivial

theorem once_during {α : Type} {n : Nat} {s : Progress} {p : RunnerProg α}
    (h : AtMost isStart n p) :
    AtMost isStart n (during s p) :=
  h.before (fun _ => trivial) fun _ => trivial

/-- The child is started at most once. -/
theorem launchChild_once (secret : Bytes) : AtMost isStart 1 (launchChild secret) := by
  refine .after (calls_owning (calls_system (calls_tell fun _ => rfl))) fun _ => ?_
  refine .after (calls_owning (calls_system (calls_tell fun _ => rfl))) fun _ => ?_
  refine .after (calls_owning (calls_system (calls_tell fun _ => rfl))) fun _ => ?_
  refine .after (calls_owning (feedPipe_calls (fun _ _ => rfl) _ _)) fun _ => ?_
  refine .after (calls_owning (calls_tell fun _ => rfl)) fun closed => ?_
  cases closed with
  | error e => exact .raise _
  | ok =>
    -- the one call that starts it
    have hstart : AtMost isStart 1 (system (tell .startChild)) := by
      refine AtMost.perform.before (fun answer => ?_) fun _ => trivial
      cases answer <;> trivial
    exact (once_owning hstart).before
      (fun _ => calls_owning (awaitChild_calls (fun _ _ => rfl) fun _ _ => rfl)) fun _ => trivial

theorem superviseChild_once (secret : Bytes) : AtMost isStart 1 (superviseChild secret) := by
  refine (launchChild_once secret).before (fun _ => ?_) fun _ => ?_
  · exact (closeAll_calls (fun _ _ => rfl) _).bind fun _ => Prog.Calls.ite trivial trivial
  · exact (closeAll_calls (fun _ _ => rfl) _).bind fun _ => trivial

theorem runChild_once (secret : Bytes) : AtMost isStart 1 (runChild C r v secret) := by
  refine .after (calls_system (calls_tell fun _ => rfl)) fun _ => ?_
  refine .after (calls_system (calls_tell fun _ => rfl)) fun _ => ?_
  refine .after (calls_system (calls_tell fun _ => rfl)) fun _ => ?_
  exact (superviseChild_once secret).before (observe_calls (fun _ _ => rfl) fun _ => rfl)
    fun _ => trivial

/-- One execution starts at most one child. -/
theorem execute_once : AtMost isStart 1 (execute C r path peerUid request) := by
  refine AtMost.before (AtMost.before ?_ (fun _ => trivial) fun _ => trivial)
    (fun s => ending_calls (removeIsolation_calls (fun _ => rfl) (fun _ => rfl) s) fun _ _ => rfl)
      fun _ => trivial
  refine .after (calls_during (admitRequest_calls fun _ => rfl)) fun v => ?_
  refine .after (calls_during (calls_stable (calls_tell fun _ => rfl))) fun _ => ?_
  refine .after (calls_during (consumeApproval_calls.mono fun _ => noStart_of_unprivileged))
    fun _ => ?_
  refine .after (calls_during (calls_stable (calls_tell fun _ => rfl))) fun _ => ?_
  refine .after (calls_during (calls_stable (calls_tell fun _ => rfl))) fun _ => ?_
  refine .after (calls_during (openCredential_calls fun _ => rfl)) fun secret => ?_
  refine .after (calls_during (calls_system (calls_tell fun _ => rfl))) fun _ => ?_
  refine .after (calls_during (calls_system (calls_tell fun _ => rfl))) fun _ => ?_
  exact (once_during (runChild_once secret)).before (fun _ => trivial) fun _ => trivial

end Execution

/-! ## Many executions -/

/-- What runs on a host: executions of requests, and what agents do with the same store. -/
inductive HostCall
  | execution (r : Runner) (path : PyStr) (peerUid : Nat) (request : Members)
  | agent (call : AgentCall)

def HostCall.program (C : Crypto) : HostCall → RunnerProg Unit
  | .execution r path peerUid request => do
    let _ ← execute C r path peerUid request
    pure ()
  | .agent call => (call.program C).inl.handle (fun _ => .ret ()) fun e =>
      .raise (.runner (.raised e))

/-- Any number of executions and agents; everything answers as it likes, and only the Broker keeps
its word. -/
def runnerSem (ι : Type) [DecidableEq ι] : Sem ι (List (ι × Event runnerSig)) runnerSig :=
  Sem.history fun i log o answer => ConsumesOnce (leftLog (log ++ [(i, ⟨o, answer⟩)]))

section Many

variable {ι : Type} [DecidableEq ι] {C : Crypto}

theorem runnerSem_once {ε α : Type} {c c' : Conf ι (List (ι × Event runnerSig)) runnerSig ε α}
    (h : (runnerSem ι).Reach c c') (h0 : c.world = []) : ConsumesOnce (leftLog c'.world) := by
  have hnil : ConsumesOnce ([] : List (ι × Event hostSig)) :=
    ⟨fun _ => List.nodup_nil, fun _ _ _ h => absurd h (by simp [confirmed, confirmedOn, eventsOf])⟩
  exact Sem.history_inv (I := fun log => ConsumesOnce (leftLog log)) (fun _ _ _ _ ha => ha) h
    (h0 ▸ hnil)

/-- An execution with its request, and the approval that one of its traces used. -/
structure Approval (C : Crypto) (call : HostCall) (v : ValidatedRequest) (o : VerifiedOperation)
    (t : List (Event runnerSig)) : Prop where
  execution : ∃ r path peerUid request, call = .execution r path peerUid request
    ∧ Admitted C r peerUid request v
  bundle : (⟨.inr (.verifyBundle v.operation), .ok ()⟩ : Event runnerSig) ∈ t
  approved : v.Approved C o (leftEvents t)
  /-- what was signed is what is run, as far as digests tell -/
  payload : C.digest o.receipt.operationPayload
    = C.digest (.obj (approvalOperationPayload v.operation v.operationId v.planHash))

/-- An agent makes no privileged call. -/
theorem agent_calls (call : AgentCall) : ((HostCall.agent call).program C).Calls Unprivileged :=
  (calls_inl (fun _ => Bool.false_ne_true) _).handle (fun _ => trivial) fun _ => trivial

theorem privileged_program {call : HostCall} {before after : List (Event runnerSig)}
    {e : Event runnerSig} {x : Outcome RunFailure Unit}
    (h : Runs (call.program C) (before ++ e :: after) x)
    (he : isPrivileged e.1 = true) : ∃ v o, Approval C call v o before := by
  cases call with
  | execution r path peerUid request =>
    obtain ⟨rest, y, h⟩ := runs_within (P := (isPrivileged · = true)) h he (fun _ => trivial)
      fun _ => trivial
    obtain ⟨v, o, hadmitted, hbundle, happroved⟩ := privileged_approved h he
    have hsigned := Authorizes.signedDigest happroved
    exact ⟨v, o, ⟨r, path, peerUid, request, rfl, hadmitted⟩, hbundle, happroved,
      hsigned.trans happroved.digest.symm⟩
  | agent call => exact absurd he ((agent_calls call).runs h e (by simp))

theorem program_once (call : HostCall) : AtMost isStart 1 (call.program C) := by
  cases call with
  | execution r path peerUid request =>
    exact execute_once.before (fun _ => trivial) fun _ => trivial
  | agent call =>
    have hcalls : ((HostCall.agent call).program C).Calls NoStart :=
      (agent_calls call).mono fun _ => noStart_of_unprivileged
    exact (AtMost.of_calls hcalls).mono (Nat.zero_le 1)

/-- Every call can be answered. -/
theorem answers_nonempty (o : runnerSig.Op) : Nonempty (runnerSig.Resp o) := by
  have hfailed {α : Type} : Except RunnerError α := .error (.raised .type)
  rcases o with o | o
  · exact ⟨(sampleHost .null).answer o⟩
  · cases o with
    | elapsed => exact ⟨(0 : Nat)⟩
    | authorityHash => exact ⟨hfailed⟩
    | verifyBundle => exact ⟨hfailed⟩
    | prepareDecisions => exact ⟨hfailed⟩
    | lockFileIsPrivate => exact ⟨(.error .other : Sys Bool)⟩
    | verifyRuntime => exact ⟨hfailed⟩
    | readCredential => exact ⟨hfailed⟩
    | readArtifact => exact ⟨hfailed⟩
    | sign => exact ⟨hfailed⟩
    | writePipe => exact ⟨(.error .other : Sys Nat)⟩
    | wait => exact ⟨(.error .other : Sys Waited)⟩
    | isolationRootExists => exact ⟨(.error .other : Sys Bool)⟩
    | _ => exact ⟨(.error .other : Sys Unit)⟩

/-- What a call has done so far is the beginning of one of its runs. -/
theorem reach_runs {calls : ι → HostCall}
    {c : Conf ι (List (ι × Event runnerSig)) runnerSig RunFailure Unit}
    (h : (runnerSem ι).Reach ⟨[], fun i => some ((calls i).program C)⟩ c) (i : ι) :
    ∃ t x, Runs ((calls i).program C) (eventsOf i c.world ++ t) x := by
  obtain ⟨q, hleads, -⟩ := Sem.history_runs (i := i) h rfl rfl
  exact ⟨_, _, hleads.extends (runs_answered (fun o => (answers_nonempty o).some) q)⟩

/-- What holds whenever executions and agents have run for a while. -/
structure Sound (C : Crypto) (calls : ι → HostCall)
    (c : Conf ι (List (ι × Event runnerSig)) runnerSig RunFailure Unit) : Prop where
  /-- an approval of exactly its operation was used before a privileged call -/
  approved : ∀ i before e after, eventsOf i c.world = before ++ e :: after →
    isPrivileged e.1 = true →
    ∃ v o, Approval C (calls i) v o before
  /-- no two calls use approvals with one nonce -/
  once : ∀ i j a b p o a' b' p' o', Authorizes C a b p o (leftEvents (eventsOf i c.world)) →
    Authorizes C a' b' p' o' (leftEvents (eventsOf j c.world)) →
      o.receipt.nonce = o'.receipt.nonce → i = j
  /-- no call starts a second child -/
  children : ∀ i, (eventsOf i c.world).countP isStart ≤ 1

/-- **Approvals and children.** Any executions run next to any agents, all of them interleaved and
killed anywhere, on a host that answers as it likes but for the Broker: every configuration reached
is sound. -/
theorem children_approved (C : Crypto) (calls : ι → HostCall) :
    (runnerSem ι).Always ⟨[], fun i => some ((calls i).program C)⟩ (Sound C calls) := by
  intro c h
  refine ⟨?_, ?_, ?_⟩
  · intro i before e after hevents he
    obtain ⟨t, x, hruns⟩ := reach_runs h i
    rw [hevents, List.append_assoc, List.cons_append] at hruns
    exact privileged_program hruns he
  · intro i j a b p o a' b' p' o' hi hj hnonce
    have honce := runnerSem_once h rfl
    rw [← eventsOf_leftLog] at hi hj
    apply honce.2 i j o.receipt.nonce hi.confirmed
    rw [hnonce]
    exact hj.confirmed
  · intro i
    obtain ⟨t, x, hruns⟩ := reach_runs h i
    have hcount := program_once _ _ _ hruns
    rw [List.countP_append] at hcount
    omega

end Many

end SddGov.TrustedRunner
