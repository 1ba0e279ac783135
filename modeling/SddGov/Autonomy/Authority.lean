import SddGov.Autonomy.Escalation
import SddGov.Autonomy.Verified

/-!
# What a result rests on

`evaluate_escalation` read backwards, as in `Verified`. Two of its results stand
on something outside the request: the fresh approval that this call consumed
(`Authorizes`), and the owner's completed resolution of the very action that is
asked for (`Resolves`). Everything else is a refusal, a question to the owner,
or a result that the request alone decides.
-/

namespace SddGov.Autonomy

open SddGov.Effect SddGov.Python SddGov.Governance

variable {C : Crypto} {t : List (Event hostSig)}

/-! ## Traces of the combinators -/

/-- An answer past the handler is the answer of the program inside. -/
theorem runs_noneOnValueError {α : Type} {p : HostProg α} {a : α}
    (h : Runs (noneOnValueError p) t (.ok (some a))) : Runs p t (.ok a) := by
  obtain ⟨t₁, t₂, y, rfl, h₁, h₂⟩ := runs_handle h
  cases y with
  | ok b =>
    obtain ⟨rfl, hb⟩ := runs_ret h₂
    obtain rfl := Option.some.inj (Except.ok.inj hb)
    rw [List.append_nil]
    exact h₁
  | error e =>
    cases e with
    | value message => exact absurd (Except.ok.inj (runs_ret h₂).2) (by simp)
    | _ => exact absurd (runs_raise h₂).2 (by simp)

/-! ## Digests -/

/-- Values of one digest are the same up to the order of members, if their canonical bytes are
no collision. -/
theorem canon_eq_of_digest {a b : Json} (hC : NoCollision C (canonicalBytes a) (canonicalBytes b))
    {digest : PyStr} (ha : C.digest a = some digest) (hb : C.digest b = some digest) :
    canon a = canon b := by
  obtain ⟨x, hx, hdx⟩ := Option.map_eq_some_iff.mp ha
  obtain ⟨y, hy, hdy⟩ := Option.map_eq_some_iff.mp hb
  obtain rfl := hC x y hx hy (hdx.trans hdy.symm)
  exact canonicalBytes_inj hx hy

/-! ## Approvals -/

/-- Along `t` one approval was used for an operation with this payload: a row was found in the
decision store under its approval id, the envelope in the row passed `_verify_operation_envelope`,
and right after that the Broker consumed its nonce. -/
structure Authorizes (C : Crypto) (approvalId operationId operationPayload : Json)
    (v : VerifiedOperation) (t : List (Event hostSig)) : Prop where
  stored : ∃ before verifying consuming after data store row,
    t = before ++ verifying ++ consuming ++ after
      ∧ (⟨.readJson .decisions, .ok (some data)⟩ : Event hostSig) ∈ before
      ∧ decisionStore? data = some store ∧ row ∈ store.decisions
      ∧ Runs (verifyOperationEnvelope C (get (lit "approval_envelope") row)) verifying (.ok v)
      ∧ Runs (consumeNonceViaControlPlane v.receipt.nonce v.receiptSha256 v.operationPayloadSha256)
        consuming (.ok true)
  approval : pyEq (.str v.receipt.approvalId) approvalId = true
  operation : pyEq (.str v.receipt.operationId) operationId = true
  digest : C.digest operationPayload = some v.operationPayloadSha256

/-- The payload that was signed. -/
theorem Authorizes.signedDigest {approvalId operationId operationPayload : Json}
    {v : VerifiedOperation} (h : Authorizes C approvalId operationId operationPayload v t) :
    C.digest v.receipt.operationPayload = some v.operationPayloadSha256 := by
  obtain ⟨_, _, _, _, _, _, _, -, -, -, -, hverify, -⟩ := h.stored
  exact validateOperationPayload_digest (verifyOperationEnvelope_ok hverify).payload

/-- The payload that was signed is the one of the request, unless the two are a collision. -/
theorem Authorizes.payload {approvalId operationId operationPayload : Json} {v : VerifiedOperation}
    (h : Authorizes C approvalId operationId operationPayload v t)
    (hC : NoCollision C (canonicalBytes v.receipt.operationPayload)
      (canonicalBytes operationPayload)) :
    canon v.receipt.operationPayload = canon operationPayload :=
  canon_eq_of_digest hC h.signedDigest h.digest

/-- The row says what was signed about one field. -/
theorem rowMatches_field {v : VerifiedOperation} {row : Members} (h : rowMatches v row = true)
    {field : String} {value : PyStr}
    (hf : (field, value) ∈ [("decision_id", v.receipt.approvalId),
      ("operation_id", v.receipt.operationId)]) : get (lit field) row = .str value := by
  apply (pyEq_str_right _ _).mp
  apply List.all_eq_true.mp h (field, value)
  simp only [List.mem_cons, List.not_mem_nil, or_false] at hf ⊢
  rcases hf with hf | hf
  · exact .inl hf
  · exact .inr (.inr (.inr (.inl hf)))

/-- A row that is accepted has an envelope that verifies, and the envelope is for the operation and
the payload that were asked for. -/
theorem verifyRow_ok {operationId : Json} {requestedPayloadSha256 : PyStr} {row : Members}
    {v : VerifiedOperation}
    (h : Runs (verifyRow C operationId requestedPayloadSha256 row) t (.ok (some v))) :
    ∃ t₁ t₂, t = t₁ ++ t₂
      ∧ Runs (verifyOperationEnvelope C (get (lit "approval_envelope") row)) t₂ (.ok v)
      ∧ rowMatches v row = true ∧ pyEq (get (lit "operation_id") row) operationId = true
      ∧ v.operationPayloadSha256 = requestedPayloadSha256 := by
  unfold verifyRow at h
  split at h
  · exact absurd (Except.ok.inj (runs_ret h).2) (by simp)
  · next hrow =>
    have hop : pyEq (get (lit "operation_id") row) operationId = true := by
      simp only [Bool.or_eq_true, not_or, Bool.not_eq_true', Bool.not_eq_false] at hrow
      exact hrow.1.2
    obtain ⟨t₁, t₂, fresh, rfl, -, h⟩ := runs_bind h
    cases fresh with
    | false => exact absurd (Except.ok.inj (runs_ret h).2) (by simp)
    | true =>
      obtain ⟨t₃, t₄, verified, rfl, hverify, h⟩ := runs_bind h
      cases verified with
      | none => exact absurd (Except.ok.inj (runs_ret h).2) (by simp)
      | some w =>
        dsimp only at h
        split at h
        · next hmatch =>
          obtain ⟨rfl, hw⟩ := runs_ret h
          obtain rfl := Option.some.inj (Except.ok.inj hw)
          simp only [Bool.and_eq_true, beq_iff_eq] at hmatch
          exact ⟨t₁, t₃, by simp, runs_noneOnValueError hverify, hmatch.1, hop, hmatch.2⟩
        · exact absurd (Except.ok.inj (runs_ret h).2) (by simp)

/-- A row is given back as consumed only behind an answer of the control plane; otherwise the result
says that the control plane blocked it. -/
theorem consumeVerified_ok {v : VerifiedOperation} {approvalId : Json} {store : DecisionStore}
    {row result : Members}
    (h : Runs (consumeVerified v approvalId store row) t (.ok (some result))) :
    result = controlPlaneBlocked ∨ ∃ t₁ t₂ consumedAt, t = t₁ ++ t₂
      ∧ Runs (consumeNonceViaControlPlane v.receipt.nonce v.receiptSha256 v.operationPayloadSha256)
        t₁ (.ok true)
      ∧ result = consumedRow row consumedAt := by
  obtain ⟨t₁, t₂, isConsumed, rfl, hconsume, h⟩ := runs_bind h
  cases isConsumed with
  | false => exact .inl (Option.some.inj (Except.ok.inj (runs_ret h).2))
  | true =>
    obtain ⟨t₃, t₄, consumedAt, rfl, -, h⟩ := runs_bind h
    obtain ⟨t₅, t₆, _, rfl, -, h⟩ := runs_bind h
    refine .inr ⟨t₁, _, consumedAt, rfl, hconsume, ?_⟩
    exact (Option.some.inj (Except.ok.inj (runs_ret h).2))

/-- The store is read once, and a missing file is an empty store. -/
theorem runs_decisionStore {store : DecisionStore} (h : Runs decisionStore t (.ok store)) :
    ∃ r, t = [⟨.readJson .decisions, .ok r⟩] ∧ decisionStore? (r.getD noDecisions)
    = some store := by
  obtain ⟨t₁, t₂, data, rfl, hread, h⟩ := runs_bind h
  obtain ⟨r, rfl, rfl⟩ := runs_readJson hread
  obtain ⟨rfl, hstore⟩ := runs_ofExcept h
  refine ⟨r, rfl, ?_⟩
  unfold checkStore at hstore
  split at hstore
  · exact absurd hstore (by simp)
  · next s hs =>
    obtain rfl := Except.ok.inj hstore
    exact hs

/-- A store with a row is a file that was there. -/
theorem decisionStore?_missing {store : DecisionStore} {row : Members}
    (h : decisionStore? noDecisions = some store) : row ∉ store.decisions := by
  have hnone : decisionStore? noDecisions = some ⟨_, []⟩ := rfl
  rw [hnone] at h
  obtain rfl := Option.some.inj h
  exact List.not_mem_nil

/-- What `_consume_operation_approval` returns: a mark that blocks, or the consumed row. -/
theorem consumeOperationApproval_ok {approvalId operationId operationPayload : Json}
    {result : Members}
    (h : Runs (consumeOperationApproval C approvalId operationId operationPayload) t
      (.ok (some result))) :
    result = runtimeContextBlocked ∨ result = controlPlaneBlocked
      ∨ ∃ v row consumedAt, Authorizes C approvalId operationId operationPayload v t
        ∧ result = consumedRow row consumedAt := by
  obtain ⟨t₁, t₂, requested, rfl, hrequested, h⟩ := runs_bind h
  cases requested with
  | none => exact .inl (Option.some.inj (Except.ok.inj (runs_ret h).2))
  | some sha =>
    obtain ⟨_, _, sha', -, hsha, hrest⟩ := runs_bind (runs_noneOnValueError hrequested)
    obtain ⟨_, _, _, -, -, hrest⟩ := runs_bind hrest
    obtain rfl := Except.ok.inj (runs_ret hrest).2
    have hdigest := validateOperationPayload_digest (runs_ofExcept hsha).2.symm
    obtain ⟨t₃, t₄, t₅, rfl, hlocked⟩ := runs_withLock h
    obtain ⟨t₆, t₇, store, rfl, hstore, hfind⟩ := runs_bind hlocked
    dsimp only [Prog.bind_eq] at hfind
    split at hfind
    · exact absurd (Except.ok.inj (runs_ret hfind).2) (by simp)
    · next row hrow =>
      obtain ⟨t₈, t₉, verified, rfl, hverify, hlast⟩ := runs_bind hfind
      cases verified with
      | none => exact absurd (Except.ok.inj (runs_ret hlast).2) (by simp)
      | some v =>
        rcases consumeVerified_ok hlast with rfl | ⟨t₁₀, t₁₁, consumedAt, rfl, hconsume, rfl⟩
        · exact .inr (.inl rfl)
        · obtain ⟨t₁₂, t₁₃, rfl, henvelope, hmatch, hop, hpayload⟩ := verifyRow_ok hverify
          obtain ⟨r, rfl, hr⟩ := runs_decisionStore hstore
          have hmem : row ∈ store.decisions := List.mem_of_find?_eq_some hrow
          have hid := List.find?_some hrow
          unfold hasDecisionId at hid
          refine .inr (.inr ⟨v, row, consumedAt, ?_, rfl⟩)
          cases r with
          | none => exact absurd hmem (decisionStore?_missing hr)
          | some data =>
            refine ⟨⟨t₁ ++ t₃ ++ ⟨.readJson .decisions, .ok (some data)⟩ :: t₁₂, t₁₃,
              t₁₀, t₁₁ ++ t₅,
              data, store, row, by simp, by simp, hr, hmem, henvelope, hconsume⟩, ?_, ?_, ?_⟩
            · rw [← rowMatches_field hmatch (.head _)]
              exact hid
            · rw [← rowMatches_field hmatch (.tail _ (.head _))]
              exact hop
            · rw [hdigest, hpayload]

/-! ## Resolutions -/

/-- Along `t` the queue held the very action of `req`, and its row carries a resolution that
passed its verification and says the owner has completed it. -/
def Resolves (C : Crypto) (req : ActionRequest) (t : List (Event hostSig)) : Prop :=
  ∃ before verifying data rows row receipt receiptSha256,
    t = before ++ verifying
      ∧ (⟨.readJson .externalActions, .ok (some data)⟩ : Event hostSig) ∈ before
      ∧ externalActionRows data = .ok rows ∧ .obj row ∈ rows
      ∧ pyEq (get (lit "action_id") row) req.actionId = true
      ∧ externalActionRequestSha256 C req.actionId req.summary (.str req.risk) req.owner
        (.str req.actionClass) req.scope = .ok receipt.requestSha256
      ∧ Runs (verifyResolutionEnvelope C (get (lit "resolution_envelope") row) false) verifying
        (.ok (receipt, receiptSha256))
      ∧ resolutionMatches row receipt receiptSha256 = true ∧ receipt.status = lit "completed"

/-- A row of the queue that is the one asked for. -/
structure Queued (C : Crypto) (req : ActionRequest) (rows : List Json) (row : Members)
    (requestSha256 : PyStr) : Prop where
  mem : .obj row ∈ rows
  actionId : pyEq (get (lit "action_id") row) req.actionId = true
  rowSha256 : get (lit "request_sha256") row = .str requestSha256
  requestSha256 : externalActionRequestSha256 C req.actionId req.summary (.str req.risk) req.owner
    (.str req.actionClass) req.scope = .ok requestSha256

/-- An action that is found stands in the queue with the digest of the request. -/
theorem findAction_ok {req : ActionRequest} {rows : List Json} {row : Members}
    {requestSha256 : PyStr} (h : findAction C req rows = .ok (some row, requestSha256)) :
    Queued C req rows row requestSha256 := by
  obtain ⟨_, -, h⟩ := except_bind_ok.mp h
  obtain ⟨sha, hsha, h⟩ := except_bind_ok.mp h
  split at h
  · exact absurd (Prod.mk.inj (Except.ok.inj h)).1 (by simp)
  · next row' hrows =>
    split at h
    · next heq =>
      obtain ⟨hrow, rfl⟩ := Prod.mk.inj (Except.ok.inj h)
      obtain rfl := Option.some.inj hrow
      have hmem : Json.obj row' ∈ rows.filter (isAction req.actionId) := by
        rw [hrows]
        exact List.mem_singleton.mpr rfl
      obtain ⟨hrow, hid⟩ := List.mem_filter.mp hmem
      exact ⟨hrow, hid, (pyEq_str_right _ _).mp heq, hsha⟩
    · exact absurd h (by simp)
  · exact absurd h (by simp)

/-- A row that is not over by now is returned as it was found, and none as created. -/
theorem reuseAction_ok {req : ActionRequest} {rows : List Json} {row result : Members}
    (h : Runs (reuseAction req rows row) t (.ok result)) :
    result = withCreated row false
      ∨ (∃ row', result = withCreated row' false) ∧ get (lit "status") result
        = .str (lit "expired") := by
  unfold reuseAction at h
  split at h
  · exact .inl (Except.ok.inj (runs_ret h).2)
  · split at h
    · exact absurd (runs_raise h).2 (by simp)
    · obtain ⟨t₁, t₂, current, rfl, -, h⟩ := runs_bind h
      dsimp only at h
      split at h
      · obtain ⟨t₃, t₄, resolvedAt, rfl, -, h⟩ := runs_bind h
        obtain ⟨t₅, t₆, _, rfl, -, h⟩ := runs_bind h
        obtain ⟨t₇, t₈, _, rfl, -, h⟩ := runs_bind h
        obtain rfl := Except.ok.inj (runs_ret h).2
        refine .inr ⟨⟨_, rfl⟩, ?_⟩
        unfold withCreated expiredRow
        -- the four later writes are to other members
        rw [get_setMember_ne _ _ (by decide), get_setMember_ne _ _ (by decide),
          get_setMember_ne _ _ (by decide), get_setMember_ne _ _ (by decide),
          get_setMember_ne _ _ (by decide), get_setMember]
      · exact .inl (Except.ok.inj (runs_ret h).2)

/-- An action that is there already and completed was in the queue that this call read. -/
theorem enqueueExternalAction_completed {req : ActionRequest} {result : Members}
    (h : Runs (enqueueExternalAction C req) t (.ok result))
    (hcreated : truthy (get (lit "external_action_created") result) = false)
    (hstatus : get (lit "status") result = .str (lit "completed")) :
    ∃ data rows row requestSha256,
      (⟨.readJson .externalActions, .ok (some data)⟩ : Event hostSig) ∈ t
        ∧ externalActionRows data = .ok rows ∧ Queued C req rows row requestSha256
        ∧ result = withCreated row false := by
  obtain ⟨t₁, t₂, t₃, rfl, hbody⟩ := runs_withLock h
  obtain ⟨t₄, t₅, ttl, rfl, -, hbody⟩ := runs_bind hbody
  obtain ⟨t₆, t₇, data, rfl, hread, hbody⟩ := runs_bind hbody
  obtain ⟨t₈, t₉, rows, rfl, hrows, hbody⟩ := runs_bind hbody
  obtain ⟨t₁₀, t₁₁, ⟨existing, requestSha256⟩, rfl, hfind, hbody⟩ := runs_bind hbody
  dsimp only [Prog.bind_eq] at hbody
  have hrows := (runs_ofExcept hrows).2.symm
  have hfind := (runs_ofExcept hfind).2.symm
  obtain ⟨r, rfl, rfl⟩ := runs_readJson hread
  cases existing with
  | none =>
    obtain ⟨t₁₂, t₁₃, _, rfl, -, hbody⟩ := runs_bind hbody
    obtain ⟨t₁₄, t₁₅, _, rfl, -, hbody⟩ := runs_bind hbody
    obtain ⟨t₁₆, t₁₇, _, rfl, -, hbody⟩ := runs_bind hbody
    obtain ⟨t₁₈, t₁₉, _, rfl, -, hbody⟩ := runs_bind hbody
    obtain rfl := Except.ok.inj (runs_ret hbody).2
    unfold withCreated at hcreated
    rw [get_setMember] at hcreated
    exact absurd hcreated (by simp [truthy])
  | some row =>
    have hq := findAction_ok hfind
    have hresult : result = withCreated row false := by
      rcases reuseAction_ok hbody with hresult | ⟨-, hexpired⟩
      · exact hresult
      · rw [hexpired] at hstatus
        exact absurd (Json.str.inj hstatus) (by decide)
    cases r with
    | none =>
      -- a queue that was not there has no row
      have hnil : externalActionRows (actionStore []) = .ok [] := by decide
      rw [show (none : Option Json).getD (actionStore []) = actionStore [] from rfl, hnil] at hrows
      obtain rfl := Except.ok.inj hrows
      exact absurd hq.mem (by simp)
    | some data => exact ⟨data, rows, row, requestSha256, by simp, hrows, hq, hresult⟩

end SddGov.Autonomy
