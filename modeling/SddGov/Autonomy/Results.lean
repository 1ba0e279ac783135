import SddGov.Autonomy.Authority

/-!
# The results of an escalation

Stage by stage, which results each stage of `evaluate_escalation` can give. The
reason `fresh_l3_operation_approval_verified` comes from `useApproval` alone
(`evaluateEscalation_fresh`), and `CONTINUE` comes from `classify`, from a
decision or an approval on record, or from the last stage, where other work
goes on or the owner has completed the action (`prepare_ok`).
-/

namespace SddGov.Autonomy

open SddGov.Effect SddGov.Python SddGov.Governance

variable {C : Crypto} {t : List (Event hostSig)}

/-- The reason of a result that rests on an approval this call consumed. -/
def freshApproval : PyStr := lit "fresh_l3_operation_approval_verified"

/-- A result that blocks, for a reason of its own. -/
def Verdict.Refuses (v : Verdict) : Prop := v.state = .blocked ∧ v.reason ≠ freshApproval

theorem Verdict.Refuses.not_continue {v : Verdict} (h : v.Refuses) : v.state ≠ .continue_ := by
  rw [h.1]
  simp

theorem Verdict.Refuses.not_asking {v : Verdict} (h : v.Refuses) : v.state ≠ .actionRequired := by
  rw [h.1]
  simp

theorem lit_ne_freshApproval {s : String} (h : s ≠ "fresh_l3_operation_approval_verified") :
    lit s ≠ freshApproval := by
  unfold freshApproval
  rwa [Ne, lit_inj]

theorem refuses_blockedWith {reason nextAction : PyStr} {details : Members}
    (h : reason ≠ freshApproval) : (blockedWith reason nextAction details).Refuses :=
  ⟨rfl, h⟩

theorem refuses_blockedFor {reason nextAction : String} {details : Members}
    (h : reason ≠ "fresh_l3_operation_approval_verified") :
    (blockedFor reason nextAction details).Refuses :=
  refuses_blockedWith (lit_ne_freshApproval h)

/-- A chain of guarded answers: each answer satisfies `P`, and so does what comes after. -/
theorem forall_guard {α : Type} {P : α → Prop} {c : Prop} [Decidable c] {a : α} {x : Option α}
    (ha : c → P a) (hx : ∀ b, x = some b → P b) :
    ∀ b, (if c then some a else x) = some b → P b := by
  intro b hb
  split at hb
  · next hc =>
    obtain rfl := Option.some.inj hb
    exact ha hc
  · exact hx b hb

theorem guard_eq_none {α : Type} {c : Prop} [Decidable c] {a : α} {x : Option α} :
    (if c then some a else x) = none ↔ ¬c ∧ x = none := by
  split
  · next hc => simp [hc]
  · next hc => simp [hc]

theorem forall_none {α : Type} {P : α → Prop} : ∀ b, (none : Option α) = some b → P b := by
  intro b hb
  exact absurd hb (by simp)

/-! ## Screening -/

/-- A request that cannot be read ends in a refusal. -/
theorem readRequest_refuses {m : Members} {v : Verdict} (h : readRequest m = .ok (.inl v)) :
    v.Refuses := by
  unfold readRequest at h
  split at h
  · split at h
    · obtain rfl := Sum.inl.inj (Except.ok.inj h)
      exact refuses_blockedFor (by simp)
    · split at h
      · split at h
        · exact absurd h (by simp)
        · split at h
          · obtain rfl := Sum.inl.inj (Except.ok.inj h)
            exact refuses_blockedFor (by simp)
          · split at h
            · exact absurd h (by simp)
            · split at h
              · exact absurd (Except.ok.inj h) (by simp)
              · exact absurd h (by simp)
            · exact absurd h (by simp)
      · exact absurd h (by simp)
  · obtain rfl := Sum.inl.inj (Except.ok.inj h)
    exact refuses_blockedFor (by simp)

/-- What a request that was read is made of. -/
theorem readRequest_ok {m : Members} {r : Request} (h : readRequest m = .ok (.inr r)) :
    r.members = m ∧ get (lit "risk_level") m = .str r.risk ∧ r.risk ∈ riskLevels
      ∧ get (lit "category") m = .str r.category ∧ r.category ∈ knownCategories
      ∧ lookup (lit "effects") m = some (.obj r.effects) ∧ validEffects r.effects = true := by
  unfold readRequest at h
  split at h
  · next risk hrisk =>
    split at h
    · exact absurd (Except.ok.inj h) (by simp)
    · next hlevel =>
      split at h
      · next category hcategory =>
        split at h
        · exact absurd h (by simp)
        · split at h
          · exact absurd (Except.ok.inj h) (by simp)
          · next hknown =>
            split at h
            · exact absurd h (by simp)
            · next effects heffects =>
              split at h
              · next hvalid =>
                obtain rfl := Sum.inr.inj (Except.ok.inj h)
                exact ⟨rfl, hrisk, not_not.mp hlevel, hcategory, not_not.mp hknown,
                  heffects, hvalid⟩
              · exact absurd h (by simp)
            · exact absurd h (by simp)
      · exact absurd h (by simp)
  · exact absurd (Except.ok.inj h) (by simp)

/-- No error of an envelope is the reason of a fresh approval. -/
theorem l0L1EnvelopeError_ne {category : PyStr} {m : Members} :
    ∀ reason, l0L1EnvelopeError category m = some reason → reason ≠ freshApproval := by
  intro reason h
  unfold l0L1EnvelopeError at h
  split at h
  · exact absurd h (by simp)
  · revert reason
    apply forall_guard
    · intro _
      exact lit_ne_freshApproval (by simp)
    · intro reason h
      split at h
      · exact absurd h (by simp)
      · revert reason
        apply forall_guard
        · intro _
          exact lit_ne_freshApproval (by simp)
        · exact forall_none

/-- The same for the closed categories. -/
theorem closedCategoryEnvelopeError_ne {category : PyStr} {m : Members} :
    ∀ reason, closedCategoryEnvelopeError category m = some reason → reason ≠ freshApproval := by
  unfold closedCategoryEnvelopeError
  apply forall_guard
  · intro _
    exact lit_ne_freshApproval (by simp)
  · intro reason h
    split at h
    · exact absurd h (by simp)
    · obtain rfl := Option.some.inj h
      exact lit_ne_freshApproval (by simp)

/-- An error in the envelope refuses. -/
theorem envelopeError_refuses {r : Request} {v : Verdict} (h : envelopeError r = some v) :
    v.Refuses := by
  unfold envelopeError at h
  split at h
  · obtain rfl := Option.some.inj h
    exact refuses_blockedFor (by simp)
  · split at h
    · next reason hreason =>
      obtain rfl := Option.some.inj h
      split at hreason
      · exact refuses_blockedWith (l0L1EnvelopeError_ne _ hreason)
      · exact absurd hreason (by simp)
    · obtain ⟨reason, hreason, rfl⟩ := Option.map_eq_some_iff.mp h
      exact refuses_blockedWith (closedCategoryEnvelopeError_ne _ hreason)

/-- An error in the category refuses. -/
theorem categoryError_refuses {r : Request} : ∀ v, categoryError r = some v → v.Refuses := by
  unfold categoryError
  refine forall_guard (fun _ => refuses_blockedFor (by simp)) ?_
  refine forall_guard (fun _ => refuses_blockedFor (by simp)) ?_
  refine forall_guard (fun _ => refuses_blockedFor (by simp)) ?_
  refine forall_guard (fun hmerge => ?_) ?_
  · -- this reason starts with the category, which is one of two
    apply refuses_blockedWith
    rcases hmerge.1 with hc | hc
    · rw [hc]
      decide
    · rw [hc]
      decide
  · refine forall_guard (fun _ => refuses_blockedFor (by simp)) ?_
    refine forall_guard (fun _ => refuses_blockedFor (by simp)) ?_
    exact forall_guard (fun _ => refuses_blockedFor (by simp)) forall_none

/-- What the screen answers itself is a refusal. -/
theorem screen_refuses {m : Members} {v : Verdict} (h : screen m = .ok (.inl v)) : v.Refuses := by
  unfold screen at h
  split at h
  · split at h
    · next w hw =>
      obtain rfl := Sum.inl.inj (Except.ok.inj h)
      exact envelopeError_refuses hw
    · split at h
      · next w hw =>
        obtain rfl := Sum.inl.inj (Except.ok.inj h)
        exact categoryError_refuses _ hw
      · exact absurd (Except.ok.inj h) (by simp)
  · exact readRequest_refuses h

/-- What the screen lets through was read and has neither error. -/
theorem screen_ok {m : Members} {r : Request} (h : screen m = .ok (.inr r)) :
    readRequest m = .ok (.inr r) ∧ envelopeError r = none ∧ categoryError r = none := by
  unfold screen at h
  split at h
  · next r' hr =>
    split at h
    · exact absurd (Except.ok.inj h) (by simp)
    · next henv =>
      split at h
      · exact absurd (Except.ok.inj h) (by simp)
      · next hcat =>
        obtain rfl := Sum.inr.inj (Except.ok.inj h)
        exact ⟨hr, henv, hcat⟩
  · next hno => exact absurd h (hno r)

/-! ## Classification -/

/-- The classification never gives the reason of a fresh approval; it has texts of its own. -/
theorem classify_reason {r : Request} {v : Verdict} (h : classify r = some v) :
    v.reason ≠ freshApproval := by
  unfold classify at h
  split at h
  · obtain rfl := Option.some.inj h
    exact lit_ne_freshApproval (by simp)
  · split at h
    · obtain rfl := Option.some.inj h
      exact lit_ne_freshApproval (by simp)
    · split at h
      · split at h
        · obtain rfl := Option.some.inj h
          exact lit_ne_freshApproval (by simp)
        · obtain rfl := Option.some.inj h
          exact lit_ne_freshApproval (by simp)
      · split at h
        · obtain rfl := Option.some.inj h
          have hreason : (routineVerdict r).reason = lit
            "no_human_escalation_if_machine_verifiable" := by
            unfold routineVerdict
            dsimp only
            split <;> rfl
          rw [hreason]
          exact lit_ne_freshApproval (by simp)
        · split at h
          · obtain rfl := Option.some.inj h
            exact lit_ne_freshApproval (by simp)
          · split at h
            · obtain rfl := Option.some.inj h
              exact lit_ne_freshApproval (by simp)
            · exact absurd h (by simp)

/-! ## What is on record -/

theorem reusedVerdict_reason (r : Request) (row : Members) (plain : Bool) :
    (reusedVerdict r row plain).reason ≠ freshApproval := by
  unfold reusedVerdict
  split
  · split
    · exact lit_ne_freshApproval (by simp)
    · exact lit_ne_freshApproval (by simp)
  · exact lit_ne_freshApproval (by simp)

/-- A reused decision has a reason of its own. -/
theorem reuseDecision_reason {r : Request} {v : Verdict}
    (h : Runs (reuseDecision r) t (.ok (some v))) : v.reason ≠ freshApproval := by
  obtain ⟨t₁, t₂, recorded, rfl, -, h⟩ := runs_bind h
  cases recorded with
  | none => exact absurd (Except.ok.inj (runs_ret h).2) (by simp)
  | some row =>
    obtain ⟨t₃, t₄, plain, rfl, -, h⟩ := runs_bind h
    obtain ⟨t₅, t₆, isMatch, rfl, -, h⟩ := runs_bind h
    have hv := Except.ok.inj (runs_ret h).2
    cases isMatch with
    | false => exact absurd hv (by simp)
    | true =>
      obtain rfl := Option.some.inj hv
      exact reusedVerdict_reason r row plain

/-- The approval a request names was used along `t`. -/
def Request.Authorized (C : Crypto) (r : Request) (v : VerifiedOperation)
    (t : List (Event hostSig)) : Prop :=
  Authorizes C (r.field "approval_id") (r.field "operation_id") (r.field "operation_payload") v t

/-- A consumed row blocks or is the fresh approval; the two marks only block. -/
theorem approvalVerdict_marks :
    (∀ v, approvalVerdict runtimeContextBlocked = .ok v → v.Refuses)
      ∧ ∀ v, approvalVerdict controlPlaneBlocked = .ok v → v.Refuses := by
  constructor
  · intro v h
    obtain rfl : blockedFor "l3_runtime_context_mismatch"
      "recover_independent_runtime_context_or_reissue_exact_payload" = v := Except.ok.inj h
    exact refuses_blockedFor (by simp)
  · intro v h
    obtain rfl : blockedFor "l3_external_nonce_ledger_unavailable"
      "provision_or_recover_independent_l3_control_plane" = v := Except.ok.inj h
    exact refuses_blockedFor (by simp)

/-- **The approval stage** refuses, or the approval was used in this very call. -/
theorem useApproval_ok {r : Request} {v : Verdict} (h : Runs (useApproval C r) t (.ok (some v))) :
    v.Refuses ∨ ∃ o, r.Authorized C o t := by
  unfold useApproval at h
  split at h
  · obtain rfl := Option.some.inj (Except.ok.inj (runs_ret h).2)
    exact .inl (refuses_blockedFor (by simp))
  · exact absurd (runs_raise h).2 (by simp)
  · split at h
    · obtain rfl := Option.some.inj (Except.ok.inj (runs_ret h).2)
      exact .inl (refuses_blockedFor (by simp))
    · obtain ⟨t₁, t₂, approval, rfl, happroval, h⟩ := runs_bind h
      cases approval with
      | none =>
        obtain ⟨t₃, t₄, store, rfl, -, h⟩ := runs_bind h
        split at h
        · obtain rfl := Option.some.inj (Except.ok.inj (runs_ret h).2)
          exact .inl (refuses_blockedFor (by simp))
        · exact absurd (Except.ok.inj (runs_ret h).2) (by simp)
      | some row =>
        obtain ⟨t₃, t₄, w, rfl, hverdict, h⟩ := runs_bind h
        obtain ⟨rfl, hw⟩ := runs_ret h
        obtain rfl := Option.some.inj (Except.ok.inj hw)
        obtain ⟨rfl, hresult⟩ := runs_ofExcept hverdict
        rcases consumeOperationApproval_ok happroval with rfl | rfl | ⟨o, _, _, ho, -⟩
        · exact .inl (approvalVerdict_marks.1 _ hresult.symm)
        · exact .inl (approvalVerdict_marks.2 _ hresult.symm)
        · rw [List.append_nil, List.append_nil]
          exact .inr ⟨o, ho⟩

/-! ## The last stage -/

theorem identityBindingError_ne {expectedRisk identity scope : Json} {package : Members} :
    ∀ reason, identityBindingError expectedRisk identity scope package = some reason →
      reason ≠ freshApproval := by
  unfold identityBindingError
  refine forall_guard (fun _ => lit_ne_freshApproval (by simp)) ?_
  refine forall_guard (fun _ => lit_ne_freshApproval (by simp)) ?_
  refine forall_guard (fun _ => lit_ne_freshApproval (by simp)) ?_
  refine forall_guard (fun _ => lit_ne_freshApproval (by simp)) ?_
  exact forall_guard (fun _ => lit_ne_freshApproval (by simp)) forall_none

/-- A binding error never gives the reason of a fresh approval. -/
theorem operationBindingError_ne {category : PyStr} {m package : Members} {reason : PyStr}
    (h : operationBindingError C category m package = .ok (some reason)) :
    reason ≠ freshApproval := by
  unfold operationBindingError at h
  split at h
  · obtain rfl := Option.some.inj (Except.ok.inj h)
    exact lit_ne_freshApproval (by simp)
  · split at h
    · split at h
      · obtain rfl := Option.some.inj (Except.ok.inj h)
        exact lit_ne_freshApproval (by simp)
      · exact absurd h (by simp)
      · split at h
        · obtain rfl := Option.some.inj (Except.ok.inj h)
          exact lit_ne_freshApproval (by simp)
        · split at h
          · obtain rfl := Option.some.inj (Except.ok.inj h)
            exact lit_ne_freshApproval (by simp)
          · split at h
            · obtain rfl := Option.some.inj (Except.ok.inj h)
              exact lit_ne_freshApproval (by simp)
            · exact identityBindingError_ne _ (Except.ok.inj h)
    · obtain rfl := Option.some.inj (Except.ok.inj h)
      exact lit_ne_freshApproval (by simp)

/-- No binding error is the reason of a fresh approval. -/
theorem actionRequiredBindingError_ne {risk category : PyStr} {m package : Members}
    {reason : PyStr} (h : actionRequiredBindingError C risk category m package
      = .ok (some reason)) :
    reason ≠ freshApproval := by
  unfold actionRequiredBindingError at h
  split at h
  · exact identityBindingError_ne _ (Except.ok.inj h)
  · split at h
    · exact operationBindingError_ne h
    · split at h
      · exact identityBindingError_ne _ (Except.ok.inj h)
      · split at h
        · exact identityBindingError_ne _ (Except.ok.inj h)
        · exact identityBindingError_ne _ (Except.ok.inj h)

/-- A package that cannot be read ends in a refusal. -/
theorem readPackage_refuses {r : Request} {v : Verdict} (h : readPackage C r = .ok (.inl v)) :
    v.Refuses := by
  have hcontract : ∀ detail, (packageContract detail).Refuses := by
    intro detail
    exact refuses_blockedFor (by simp)
  unfold readPackage at h
  split at h
  · split at h
    · split at h
      · obtain rfl := Sum.inl.inj (Except.ok.inj h)
        exact hcontract _
      · exact absurd h (by simp)
    · split at h
      · exact absurd h (by simp)
      · next reason hreason =>
        obtain rfl := Sum.inl.inj (Except.ok.inj h)
        exact refuses_blockedWith (actionRequiredBindingError_ne hreason)
      · exact absurd (Except.ok.inj h) (by simp)
  · obtain rfl := Sum.inl.inj (Except.ok.inj h)
    exact hcontract _

/-- The reasons that start with the category of a request for the owner's action. -/
theorem human_reason_ne {r : Request} (hr : r.isHuman = true) {suffix : PyStr} :
    r.category ++ suffix ≠ freshApproval := by
  have hc : r.category = lit "operational_action" ∨ r.category = lit "necessary_uat" := by
    simpa [Request.isHuman, humanCategories] using hr
  -- the first characters differ
  intro h
  have hhead := congrArg List.head? h
  rcases hc with hc | hc
  · rw [hc] at hhead
    exact absurd hhead (by
      show some (cp 0x6F) ≠ _
      decide)
  · rw [hc] at hhead
    exact absurd hhead (by
      show some (cp 0x6E) ≠ _
      decide)

/-- A result of the last stage that lets work go on has other work to go on with, or the owner has
completed the very action that was asked for. -/
def Request.Released (C : Crypto) (r : Request) (t : List (Event hostSig)) : Prop :=
  r.unrelatedWork = true ∨ r.isHuman = true
    ∧ ∃ package, readPackage C r = .ok (.inr package) ∧ Resolves C (actionRequest r package) t

/-- The result of a stage after which nothing is consumed any more. -/
def Verdict.Settled (C : Crypto) (r : Request) (t : List (Event hostSig)) (v : Verdict) : Prop :=
  v.reason ≠ freshApproval ∧ (v.state = .continue_ → r.Released C t)

theorem Verdict.Refuses.settled {v : Verdict} {r : Request} (h : v.Refuses) : v.Settled C r t :=
  ⟨h.2, fun hs => absurd hs h.not_continue⟩

theorem settled_unrelatedOnly {r : Request} {reason nextAction otherwise : String}
    {details : Members} {reason' : PyStr} (h : reason' ≠ freshApproval) :
    ({ unrelatedOnly r reason nextAction otherwise details with reason := reason' } :
      Verdict).Settled
      C r t := by
  refine ⟨h, fun hs => .inl ?_⟩
  by_contra hw
  simp [unrelatedOnly, hw] at hs

/-- An action that was there already lets work go on only as said. -/
theorem existingAction_settled {r : Request} (hr : r.isHuman = true) {package row : Members}
    {v : Verdict} {t₁ t₂ : List (Event hostSig)} (hpackage : readPackage C r = .ok (.inr package))
    (henqueue : Runs (enqueueExternalAction C (actionRequest r package)) t₁ (.ok row))
    (hcreated : truthy (get (lit "external_action_created") row) = false)
    (h : Runs (existingAction C r row) t₂ (.ok v)) : v.Settled C r (t₁ ++ t₂) := by
  have hne : ∀ suffix, r.category ++ suffix ≠ freshApproval := fun _ => human_reason_ne hr
  have hover : ∀ status, (overVerdict r row status).Refuses := by
    intro status
    apply refuses_blockedWith
    rw [List.append_assoc]
    exact hne _
  have huntrusted : ∀ details, (untrustedResolution r details).Refuses :=
    fun _ => refuses_blockedWith (hne _)
  unfold existingAction at h
  split at h
  · obtain ⟨t₃, t₄, verified, rfl, hverify, hlast⟩ := runs_bind h
    cases verified with
    | none =>
      obtain rfl := Except.ok.inj (runs_ret hlast).2
      exact (huntrusted _).settled
    | some verified =>
      obtain ⟨receipt, receiptSha256⟩ := verified
      dsimp only at hlast
      split at hlast
      · obtain rfl := Except.ok.inj (runs_ret hlast).2
        exact (huntrusted _).settled
      · next hmatch =>
        have hmatch : resolutionMatches row receipt receiptSha256 = true := by
          simpa using hmatch
        split at hlast
        · next hcompleted =>
          obtain ⟨rfl, hv⟩ := runs_ret hlast
          obtain rfl := Except.ok.inj hv
          refine ⟨hne _, fun _ => .inr ⟨hr, package, hpackage, ?_⟩⟩
          have hstatus := (pyEq_str_right _ _).mp hcompleted
          obtain ⟨data, rows, row', sha, hread, hrows, hq, rfl⟩ :=
            enqueueExternalAction_completed henqueue hcreated hstatus
          -- the mark of the call changes none of the members that are compared
          have hget : ∀ field, field ≠ "external_action_created" →
              get (lit field) (withCreated row' false) = get (lit field) row' := by
            intro field hf
            exact get_setMember_ne _ _ (by rwa [Ne, lit_inj])
          have hall := List.all_eq_true.mp hmatch
          have hsha := (pyEq_str_right _ _).mp
            (hall ("request_sha256", receipt.requestSha256) (by simp))
          have hstatus' := (pyEq_str_right _ _).mp (hall ("status", receipt.status) (by simp))
          have hmatch' : resolutionMatches row' receipt receiptSha256 = true := by
            unfold resolutionMatches at hmatch ⊢
            rw [List.all_eq_true] at hmatch ⊢
            intro field hf
            rw [← hget field.1 (by
              simp only [List.mem_cons, List.not_mem_nil, or_false] at hf
              rcases hf with rfl | rfl | rfl | rfl | rfl | rfl | rfl <;> simp)]
            exact hmatch field hf
          rw [hget _ (by simp)] at hverify
          rw [hget _ (by simp), hq.rowSha256] at hsha
          rw [hstatus] at hstatus'
          refine ⟨t₁, t₃, data, rows, row', receipt, receiptSha256, by simp, hread, hrows, hq.mem,
            hq.actionId, ?_, runs_noneOnValueError hverify, hmatch', (Json.str.inj hstatus').symm⟩
          rw [hq.requestSha256, Json.str.inj hsha]
        · obtain rfl := Except.ok.inj (runs_ret hlast).2
          exact (hover _).settled
  · split at h
    · obtain rfl := Except.ok.inj (runs_ret h).2
      exact (hover _).settled
    · obtain rfl := Except.ok.inj (runs_ret h).2
      exact settled_unrelatedOnly (hne _)

/-- What the queue answers settles the request. -/
theorem prepareAction_settled {r : Request} (hr : r.isHuman = true) {package : Members}
    {v : Verdict}
    (hpackage : readPackage C r = .ok (.inr package))
    (h : Runs (prepareAction C r package) t (.ok v)) : v.Settled C r t := by
  have hne : ∀ suffix, r.category ++ suffix ≠ freshApproval := fun _ => human_reason_ne hr
  unfold prepareAction at h
  dsimp only at h
  split at h
  · obtain rfl := Except.ok.inj (runs_ret h).2
    exact (refuses_blockedWith (hne _)).settled
  · obtain ⟨t₁, t₂, y, rfl, henqueue, hlast⟩ := runs_handle h
    cases y with
    | ok row =>
      unfold Prog.resume at hlast
      dsimp only at hlast
      split at hlast
      · next hcreated =>
          exact existingAction_settled hr hpackage henqueue (by simpa using hcreated) hlast
      · split at hlast
        · next hwork =>
          obtain rfl := Except.ok.inj (runs_ret hlast).2
          exact ⟨hne _, fun _ => .inl hwork⟩
        · obtain rfl := Except.ok.inj (runs_ret hlast).2
          exact ⟨lit_ne_freshApproval (by simp), fun hs =>
            absurd hs (by simp [actionRequiredVerdict])⟩
    | error e =>
      cases e with
      | value message =>
        obtain rfl := Except.ok.inj (runs_ret hlast).2
        unfold enqueueError
        split
        · exact (refuses_blockedWith (hne _)).settled
        · exact (refuses_blockedWith (hne _)).settled
      | _ => exact absurd (runs_raise hlast).2 (by simp)

/-- **The last stage** lets work go on only where other work can, or where the owner has completed
the action; it consumes nothing. -/
theorem prepare_settled {r : Request} {v : Verdict} (h : Runs (prepare C r) t (.ok v)) :
    v.Settled C r t := by
  obtain ⟨t₁, t₂, package, rfl, hread, hlast⟩ := runs_bind h
  obtain ⟨rfl, hpackage⟩ := runs_ofExcept hread
  rw [List.nil_append]
  cases package with
  | inl w =>
    obtain rfl := Except.ok.inj (runs_ret hlast).2
    exact (readPackage_refuses hpackage.symm).settled
  | inr package =>
    dsimp only at hlast
    split at hlast
    · next hr => exact prepareAction_settled hr hpackage.symm hlast
    · split at hlast
      · next hwork =>
        obtain rfl := Except.ok.inj (runs_ret hlast).2
        exact ⟨lit_ne_freshApproval (by simp), fun _ => .inl hwork⟩
      · obtain rfl := Except.ok.inj (runs_ret hlast).2
        exact ⟨lit_ne_freshApproval (by simp), fun hs =>
          absurd hs (by simp [actionRequiredVerdict])⟩

/-! ## The whole program -/

/-- The stage a result comes from. -/
theorem evaluateEscalation_ok {m : Members} {v : Verdict}
    (h : Runs (evaluateEscalation C m) t (.ok v)) :
    screen m = .ok (.inl v) ∨ ∃ r, screen m = .ok (.inr r) ∧
      (classify r = some v ∨ classify r = none ∧ Runs (decideRequest C r) t (.ok v)) := by
  obtain ⟨t₁, t₂, screened, rfl, hscreen, hlast⟩ := runs_bind h
  obtain ⟨rfl, hresult⟩ := runs_ofExcept hscreen
  rw [List.nil_append]
  cases screened with
  | inl w =>
    obtain rfl := Except.ok.inj (runs_ret hlast).2
    exact .inl hresult.symm
  | inr r =>
    refine .inr ⟨r, hresult.symm, ?_⟩
    dsimp only at hlast
    split at hlast
    · next w hw =>
      obtain rfl := Except.ok.inj (runs_ret hlast).2
      exact .inl hw
    · next hnone => exact .inr ⟨hnone, hlast⟩

/-- The result of a request that needs a decision: one on record, or the last stage. -/
theorem decideRequest_ok {r : Request} {v : Verdict} (h : Runs (decideRequest C r) t (.ok v)) :
    Runs (onRecord C r) t (.ok (some v))
      ∨ ∃ t₁ t₂, t = t₁ ++ t₂ ∧ Runs (onRecord C r) t₁ (.ok none)
        ∧ Runs (prepare C r) t₂ (.ok v) := by
  obtain ⟨t₁, t₂, recorded, rfl, hrecord, hlast⟩ := runs_bind h
  cases recorded with
  | none => exact .inr ⟨t₁, t₂, rfl, hrecord, hlast⟩
  | some w =>
    obtain ⟨rfl, hw⟩ := runs_ret hlast
    obtain rfl := Except.ok.inj hw
    rw [List.append_nil]
    exact .inl hrecord

/-- **Only a consumed approval is a fresh approval**: whatever was read, a result with that reason
comes from a call that used the approval the request names. -/
theorem evaluateEscalation_fresh {m : Members} {v : Verdict}
    (h : Runs (evaluateEscalation C m) t (.ok v)) (hv : v.reason = freshApproval) :
    ∃ r o, screen m = .ok (.inr r) ∧ r.Authorized C o t := by
  rcases evaluateEscalation_ok h with hs | ⟨r, hs, hc | ⟨-, hd⟩⟩
  · exact absurd hv (screen_refuses hs).2
  · exact absurd hv (classify_reason hc)
  · rcases decideRequest_ok hd with hr | ⟨t₁, t₂, rfl, -, hp⟩
    · unfold onRecord at hr
      split at hr
      · exact absurd hv (reuseDecision_reason hr)
      · split at hr
        · rcases useApproval_ok hr with href | ⟨o, ho⟩
          · exact absurd hv href.2
          · exact ⟨r, o, hs, ho⟩
        · exact absurd (Except.ok.inj (runs_ret hr).2) (by simp)
    · exact absurd hv (prepare_settled hp).1

end SddGov.Autonomy
