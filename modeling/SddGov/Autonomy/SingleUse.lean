import SddGov.Autonomy.AgentBroker
import SddGov.Autonomy.Confirmed
import SddGov.Autonomy.Results

/-!
# An approval is used once

Any number of processes import approvals and evaluate escalations on a host
that answers anything at all: the decision store can be rewritten between any
two calls, so nothing that is read from it is trusted. What is left is the
signed envelope, the digest of the payload, and the Broker. A result
`fresh_l3_operation_approval_verified` was earned by an envelope that verified
in that very call and signs the request's payload, and no two calls can earn it
with the same nonce (`approval_single_use`).
-/

namespace SddGov.Autonomy

open SddGov.Effect SddGov.Python SddGov.Governance

/-- What a process runs. -/
inductive AgentCall
  | importApproval (path : PyStr)
  | escalation (request : Members)

/-- The program of a call; only an escalation has a result to report. -/
def AgentCall.program (C : Crypto) : AgentCall → HostProg (Option Verdict)
  | .importApproval path => do
    let _ ← importOperationApproval C path
    pure none
  | .escalation request => do
    let v ← evaluateEscalation C request
    pure (some v)

variable {C : Crypto}

/-- A trace along which an approval was used confirms its nonce. -/
theorem Authorizes.confirmed {approvalId operationId operationPayload : Json}
    {v : VerifiedOperation} {t : List (Event hostSig)}
    (h : Authorizes C approvalId operationId operationPayload v t) :
    v.receipt.nonce ∈ confirmed t := by
  obtain ⟨before, verifying, consuming, after, _, _, _, rfl, -, -, -, -, hconsume⟩ := h.stored
  exact mem_confirmed_of_part fun c => consumeNonce_confirmed hconsume c

/-- Only an escalation reports a result, and the trace of its call is one of the escalation. -/
theorem runs_program {call : AgentCall} {t : List (Event hostSig)} {v : Verdict}
    (h : Runs (call.program C) t (.ok (some v))) :
    ∃ m, call = .escalation m ∧ Runs (evaluateEscalation C m) t (.ok v) := by
  cases call with
  | importApproval path =>
    obtain ⟨_, _, _, -, -, hlast⟩ := runs_bind h
    exact absurd (Except.ok.inj (runs_ret hlast).2) (by simp)
  | escalation m =>
    obtain ⟨t₁, t₂, w, rfl, hrun, hlast⟩ := runs_bind h
    obtain ⟨rfl, hw⟩ := runs_ret hlast
    obtain rfl := Option.some.inj (Except.ok.inj hw)
    rw [List.append_nil]
    exact ⟨m, rfl, hrun⟩

variable {ι : Type} [DecidableEq ι]

/-- **An L3 approval authorises at most one operation.** In every run of any calls, a result
`fresh_l3_operation_approval_verified` was reached by a call along which a stored envelope passed
`_verify_operation_envelope`, its nonce was consumed right after that, and the payload it signs is
the request's, unless the canonical bytes of the two are a collision of SHA-256; and two calls that
used approvals with the same nonce are the same call. -/
theorem approval_single_use (C : Crypto) (calls : ι → AgentCall)
    {c : Conf ι (List (ι × Event hostSig)) hostSig Exn (Option Verdict)}
    (h : (agentSem ι).Reach ⟨[], fun i => some ((calls i).program C)⟩ c) :
    (∀ i v, c.threads i = some (.ret (some v)) → v.reason = freshApproval →
      ∃ m o, calls i = .escalation m
        ∧ Authorizes C (get (lit "approval_id") m) (get (lit "operation_id") m)
          (get (lit "operation_payload") m) o (eventsOf i c.world)
        ∧ (NoCollision C (canonicalBytes o.receipt.operationPayload)
            (canonicalBytes (get (lit "operation_payload") m)) →
          canon o.receipt.operationPayload = canon (get (lit "operation_payload") m)))
    ∧ ∀ i j a b p o a' b' p' o', Authorizes C a b p o (eventsOf i c.world) →
      Authorizes C a' b' p' o' (eventsOf j c.world) → o.receipt.nonce = o'.receipt.nonce →
      i = j := by
  constructor
  · intro i v hend hfresh
    obtain ⟨p, hp, hleads⟩ := Sem.history_leads h rfl hend
    obtain rfl := Option.some.inj hp
    obtain ⟨m, hcall, hrun⟩ := runs_program hleads.runs
    obtain ⟨r, o, hscreen, ho⟩ := evaluateEscalation_fresh hrun hfresh
    obtain rfl := (readRequest_ok (screen_ok hscreen).1).1
    exact ⟨r.members, o, hcall, ho, ho.payload⟩
  · intro i j a b p o a' b' p' o' hi hj hnonce
    have honce := agentSem_once h rfl
    apply honce.2 i j o.receipt.nonce hi.confirmed
    rw [hnonce]
    exact hj.confirmed

/-! ## One use -/

/-- The row an import of the sample receipt leaves. -/
def sampleRow (C : Crypto) (s : Signed) : Members :=
  match operationReceipt? s.receipt, C.digest (.obj s.receipt), C.digest (.obj samplePayload) with
  | some receipt, some receiptSha256, some operationPayloadSha256 =>
    approvalRow ⟨receipt, receiptSha256, operationPayloadSha256⟩ s.envelope (sampleHost .null).now
  | _, _, _ => []

/-- A host with this approval on record, and a Broker that consumes. -/
def approvedHost (C : Crypto) (s : Signed) : CalmHost :=
  { sampleHost .null with
    files := fun file =>
      if file = .decisions then
        .ok (some (.obj [(lit "schema_version", .str (lit "1.0")),
          (lit "decisions", .arr [.obj (sampleRow C s)])]))
      else .ok none
    reply := Broker.consumed }

/-- The request the sample receipt approves. -/
def sampleRequest : Members :=
  [(lit "risk_level", .str (lit "L3")), (lit "category", .str (lit "real_payment")),
    (lit "effects", .obj [(lit "real_payment", .bool true)]),
      (lit "approval_id", .str (lit "APP-1")),
    (lit "operation_id", .str (lit "OP-1")), (lit "operation_payload", .obj samplePayload)]

/-- The escalation of that request. -/
def sampleEscalation : List (Event hostSig) × Outcome Exn (Option Verdict) :=
  ((AgentCall.escalation sampleRequest).program sampleCrypto).answered
    (approvedHost sampleCrypto plainSigned).answer

/-- The reason of a reported result, and the nonces its thread was confirmed. -/
def reported : List (Event hostSig) × Outcome Exn (Option Verdict) → Option (PyStr × List PyStr)
  | (t, .ok (some v)) => some (v.reason, confirmed t)
  | _ => none

/-- The sample request is answered with its fresh approval, and all the theorem says holds of the
run in which that happens. -/
theorem approval_single_use_sample :
    ∃ (c : Conf Unit (List (Unit × Event hostSig)) hostSig Exn (Option Verdict)) (v : Verdict),
      c.threads () = some (.ret (some v)) ∧ v.reason = freshApproval
      ∧ (∀ i v, c.threads i = some (.ret (some v)) → v.reason = freshApproval →
        ∃ m o, AgentCall.escalation sampleRequest = .escalation m
          ∧ Authorizes sampleCrypto (get (lit "approval_id") m) (get (lit "operation_id") m)
            (get (lit "operation_payload") m) o (eventsOf i c.world)
          ∧ (NoCollision sampleCrypto (canonicalBytes o.receipt.operationPayload)
              (canonicalBytes (get (lit "operation_payload") m)) →
            canon o.receipt.operationPayload = canon (get (lit "operation_payload") m)))
      ∧ ∀ i j a b p o a' b' p' o', Authorizes sampleCrypto a b p o (eventsOf i c.world) →
        Authorizes sampleCrypto a' b' p' o' (eventsOf j c.world) →
        o.receipt.nonce = o'.receipt.nonce → i = j := by
  have hrun := runs_answered (approvedHost sampleCrypto plainSigned).answer
    ((AgentCall.escalation sampleRequest).program sampleCrypto)
  have hend : reported sampleEscalation = some (freshApproval, [lit "nonce-000001"]) := by
    decide +kernel
  unfold reported at hend
  split at hend
  · next t v hsample =>
    obtain ⟨hfresh, hconfirmed⟩ := Prod.mk.inj (Option.some.inj hend)
    unfold sampleEscalation at hsample
    rw [hsample] at hrun
    have honce : (confirmed t).Nodup := by
      rw [hconfirmed]
      exact List.nodup_singleton _
    let start : Conf Unit (List (Unit × Event hostSig)) hostSig Exn (Option Verdict) :=
      ⟨[], fun _ => some ((AgentCall.escalation sampleRequest).program sampleCrypto)⟩
    obtain ⟨c, hreach, -, hthread⟩ := @Sem.history_run hostSig Unit Exn (Option Verdict)
      (fun i log o r => ConsumesOnce (log ++ [(i, ⟨o, r⟩)])) _ () _ _ _ hrun start rfl
      (fun t₁ e t₂ ht => agentSem_alone honce ht)
    exact ⟨c, v, hthread, hfresh, approval_single_use sampleCrypto
      (fun _ => .escalation sampleRequest) hreach⟩
  · exact absurd hend (by simp)

end SddGov.Autonomy
