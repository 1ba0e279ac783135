import SddGov.Autonomy.Soundness

/-!
# When the owner is asked

`ACTION_REQUIRED` is the one result that interrupts the owner. It comes from the
last stage only, so the request carries a decision package, and only four kinds
of request may: a product decision, an L3 operation, and the two external
actions, whose row this very call has queued (`Genuine`). The package is bound to
the request by Python's `==`. For texts that is identity; for the payload of an
operation it is not, since `1`, `1.0` and `True` are equal (`actionRequired_iff`).
-/

namespace SddGov.Autonomy

open SddGov.Effect SddGov.Python SddGov.Governance

variable {C : Crypto} {m : Members} {t : List (Event hostSig)}

/-! ## Only the last stage asks -/

/-- The classification alone never asks the Owner. -/
theorem classify_not_asking {r : Request} {v : Verdict} (h : classify r = some v) :
    v.state ≠ .actionRequired := by
  have hunrelated : ∀ (reason nextAction otherwise : String) (details : Members),
      (unrelatedOnly r reason nextAction otherwise details).state ≠ .actionRequired := by
    intro _ _ _ _
    unfold unrelatedOnly
    dsimp only
    split <;> simp
  unfold classify at h
  split at h
  · obtain rfl := Option.some.inj h
    simp [continueWith]
  · split at h
    · obtain rfl := Option.some.inj h
      exact hunrelated _ _ _ _
    · split at h
      · split at h
        · obtain rfl := Option.some.inj h
          simp [continueWith]
        · obtain rfl := Option.some.inj h
          exact hunrelated _ _ _ _
      · split at h
        · obtain rfl := Option.some.inj h
          unfold routineVerdict
          dsimp only
          split <;> simp [continueWith]
        · split at h
          · obtain rfl := Option.some.inj h
            simp [continueWith]
          · split at h
            · obtain rfl := Option.some.inj h
              simp [continueWith]
            · exact absurd h (by simp)

/-- A verdict on an approval is no question. -/
theorem approvalVerdict_not_asking {approval : Members} {v : Verdict}
    (h : approvalVerdict approval = .ok v) : v.state ≠ .actionRequired := by
  unfold approvalVerdict at h
  split at h
  · obtain rfl := Except.ok.inj h
    simp [blockedFor, blockedWith]
  · split at h
    · obtain rfl := Except.ok.inj h
      simp [blockedFor, blockedWith]
    · obtain ⟨payload, -, h⟩ := except_bind_ok.mp h
      obtain rfl := Except.ok.inj h
      simp [continueWith]

/-- A decision on record is reused or refused, and no new question comes of it. -/
theorem onRecord_not_asking {r : Request} {v : Verdict} (h : Runs (onRecord C r) t (.ok (some v))) :
    v.state ≠ .actionRequired := by
  unfold onRecord at h
  split at h
  · obtain ⟨t₁, t₂, recorded, rfl, -, h⟩ := runs_bind h
    cases recorded with
    | none => exact absurd (Except.ok.inj (runs_ret h).2) (by simp)
    | some row =>
      obtain ⟨t₃, t₄, plain, rfl, -, h⟩ := runs_bind h
      obtain ⟨t₅, t₆, isMatch, rfl, -, h⟩ := runs_bind h
      have hv := Except.ok.inj (runs_ret h).2
      cases isMatch with
      | false => exact absurd hv (by simp)
      | true =>
        obtain rfl := Option.some.inj hv
        unfold reusedVerdict
        split
        · split <;> simp [blockedFor, blockedWith]
        · simp [continueWith]
  · split at h
    · unfold useApproval at h
      split at h
      · obtain rfl := Option.some.inj (Except.ok.inj (runs_ret h).2)
        simp [blockedFor, blockedWith]
      · exact absurd (runs_raise h).2 (by simp)
      · split at h
        · obtain rfl := Option.some.inj (Except.ok.inj (runs_ret h).2)
          simp [blockedFor, blockedWith]
        · obtain ⟨t₁, t₂, approval, rfl, -, h⟩ := runs_bind h
          cases approval with
          | none =>
            obtain ⟨t₃, t₄, store, rfl, -, h⟩ := runs_bind h
            split at h
            · obtain rfl := Option.some.inj (Except.ok.inj (runs_ret h).2)
              simp [blockedFor, blockedWith]
            · exact absurd (Except.ok.inj (runs_ret h).2) (by simp)
          | some row =>
            obtain ⟨t₃, t₄, w, rfl, hverdict, h⟩ := runs_bind h
            obtain rfl := Option.some.inj (Except.ok.inj (runs_ret h).2)
            exact approvalVerdict_not_asking (runs_ofExcept hverdict).2.symm
    · exact absurd (Except.ok.inj (runs_ret h).2) (by simp)

/-! ## The last stage asking -/

/-- The package of a request that asks, and the row its call has created. -/
structure Asks (C : Crypto) (r : Request) (t : List (Event hostSig)) (package : Members)
    (v : Verdict) :
    Prop where
  read : readPackage C r = .ok (.inr package)
  shown : lookup (lit "decision_package") v.details = some (.obj package)
  created : r.isHuman = true → ∃ row,
    Runs (enqueueExternalAction C (actionRequest r package)) t (.ok row)
      ∧ truthy (get (lit "external_action_created") row) = true

/-- An action that is already in the queue asks no new question. -/
theorem existingAction_not_asking {r : Request} {row : Members} {v : Verdict}
    (h : Runs (existingAction C r row) t (.ok v)) : v.state ≠ .actionRequired := by
  unfold existingAction at h
  split at h
  · obtain ⟨t₁, t₂, verified, rfl, -, h⟩ := runs_bind h
    cases verified with
    | none =>
      obtain rfl := Except.ok.inj (runs_ret h).2
      simp [untrustedResolution, blockedWith]
    | some verified =>
      dsimp only at h
      split at h
      · obtain rfl := Except.ok.inj (runs_ret h).2
        simp [untrustedResolution, blockedWith]
      · split at h
        · obtain rfl := Except.ok.inj (runs_ret h).2
          simp [continueWith]
        · obtain rfl := Except.ok.inj (runs_ret h).2
          simp [overVerdict, blockedWith]
  · split at h
    · obtain rfl := Except.ok.inj (runs_ret h).2
      simp [overVerdict, blockedWith]
    · obtain rfl := Except.ok.inj (runs_ret h).2
      unfold unrelatedOnly
      dsimp only
      split <;> simp

/-- Where the queue is asked to prepare an action, the question is about the package that was
read. -/
theorem prepareAction_asks {r : Request} {package : Members} {v : Verdict}
    (hpackage : readPackage C r = .ok (.inr package))
    (h : Runs (prepareAction C r package) t (.ok v)) (hv : v.state = .actionRequired) :
    Asks C r t package v := by
  unfold prepareAction at h
  dsimp only at h
  split at h
  · obtain rfl := Except.ok.inj (runs_ret h).2
    exact absurd hv (by simp [blockedWith])
  · obtain ⟨t₁, t₂, y, rfl, henqueue, hlast⟩ := runs_handle h
    cases y with
    | ok row =>
      unfold Prog.resume at hlast
      dsimp only at hlast
      split at hlast
      · exact absurd hv (existingAction_not_asking hlast)
      · next hcreated =>
        split at hlast
        · obtain rfl := Except.ok.inj (runs_ret hlast).2
          exact absurd hv (by simp [surfaceVerdict])
        · obtain ⟨rfl, hw⟩ := runs_ret hlast
          obtain rfl := Except.ok.inj hw
          rw [List.append_nil]
          exact ⟨hpackage, rfl, fun _ => ⟨row, henqueue, by simpa using hcreated⟩⟩
    | error e =>
      cases e with
      | value message =>
        obtain rfl := Except.ok.inj (runs_ret hlast).2
        unfold enqueueError at hv
        split at hv
        · exact absurd hv (by simp [untrustedResolution, blockedWith])
        · exact absurd hv (by simp [blockedWith])
      | _ => exact absurd (runs_raise hlast).2 (by simp)

/-- Every question comes from a package; what is refused before one is read asks nothing. -/
theorem prepare_asks {r : Request} {v : Verdict} (h : Runs (prepare C r) t (.ok v))
    (hv : v.state = .actionRequired) : ∃ package, Asks C r t package v := by
  obtain ⟨t₁, t₂, package, rfl, hread, hlast⟩ := runs_bind h
  obtain ⟨rfl, hpackage⟩ := runs_ofExcept hread
  rw [List.nil_append]
  cases package with
  | inl w =>
    obtain rfl := Except.ok.inj (runs_ret hlast).2
    exact absurd hv (readPackage_refuses hpackage.symm).not_asking
  | inr package =>
    dsimp only at hlast
    split at hlast
    · exact ⟨package, prepareAction_asks hpackage.symm hlast hv⟩
    · next hhuman =>
      split at hlast
      · obtain rfl := Except.ok.inj (runs_ret hlast).2
        exact absurd hv (by simp [surfaceVerdict])
      · obtain rfl := Except.ok.inj (runs_ret hlast).2
        exact ⟨package, hpackage.symm, rfl, fun hr => absurd hr hhuman⟩

/-- Whatever asks the owner got through the screen, was not answered at once, and has a package. -/
theorem evaluateEscalation_asks {v : Verdict} (h : Runs (evaluateEscalation C m) t (.ok v))
    (hv : v.state = .actionRequired) :
    ∃ r package t₁ t₂, screen m = .ok (.inr r) ∧ classify r = none ∧ t = t₁ ++ t₂
      ∧ Asks C r t₂ package v := by
  rcases evaluateEscalation_ok h with hs | ⟨r, hs, hc | ⟨hnone, hd⟩⟩
  · exact absurd hv (screen_refuses hs).not_asking
  · exact absurd hv (classify_not_asking hc)
  · rcases decideRequest_ok hd with hr | ⟨t₁, t₂, rfl, -, hp⟩
    · exact absurd hv (onRecord_not_asking hr)
    · obtain ⟨package, hasks⟩ := prepare_asks hp hv
      exact ⟨r, package, t₁, t₂, hs, hnone, rfl, hasks⟩

/-! ## What a package is bound to -/

/-- The package carries this risk label, and the identity and the scope of the request. -/
structure Bound (label : String) (identity scope : Json) (package : Members) : Prop where
  risk : get (lit "risk_level") package = .str (lit label)
  identity : (text? identity).isSome = true ∧ get (lit "decision_id") package = identity
  scope : (text? scope).isSome = true ∧ get (lit "scope_of_approval") package = scope

/-- Without an error the package repeats the identity and the scope. -/
theorem identityBindingError_none {label : String} {identity scope : Json} {package : Members}
    (h : identityBindingError (.str (lit label)) identity scope package = none) :
    Bound label identity scope package := by
  unfold identityBindingError at h
  obtain ⟨hrisk, h⟩ := guard_eq_none.mp h
  obtain ⟨hidentity, h⟩ := guard_eq_none.mp h
  obtain ⟨hid, h⟩ := guard_eq_none.mp h
  obtain ⟨hscope, h⟩ := guard_eq_none.mp h
  obtain ⟨hsc, -⟩ := guard_eq_none.mp h
  have hidentity : (text? identity).isSome = true := by
    simpa [Option.isSome_iff_ne_none] using hidentity
  have hscope : (text? scope).isSome = true := by simpa [Option.isSome_iff_ne_none] using hscope
  exact ⟨(pyEq_str_right _ _).mp (by simpa using hrisk),
    ⟨hidentity, eq_of_pyEq_text hidentity (by simpa using hid)⟩,
    ⟨hscope, eq_of_pyEq_text hscope (by simpa using hsc)⟩⟩

/-- An L3 package is bound to a valid payload of the request, up to Python's `==`. -/
structure PayloadBound (C : Crypto) (category : PyStr) (m : Members) (payload package : Members) :
    Prop where
  carried : get (lit "operation_payload") m = .obj payload
  valid : ∃ digest, validateOperationPayload C (.obj payload) = .ok digest
  sameCategory : get (lit "category") payload = .str category
  sameEffects : pyEq (get (lit "effects") payload) (get (lit "effects") m) = true
  equal : pyEq (get (lit "operation_payload") package) (.obj payload) = true
  bound : Bound "L3" (get (lit "approval_id") m) (get (lit "scope") payload) package

/-- Without a binding error the payload of the package is that of the request, up to the equality
that Python has. -/
theorem operationBindingError_none {category : PyStr} {package : Members}
    (h : operationBindingError C category m package = .ok none) :
    ∃ payload, PayloadBound C category m payload package := by
  unfold operationBindingError at h
  split at h
  · exact absurd (Except.ok.inj h) (by simp)
  · split at h
    · next payload hpayload =>
      split at h
      · exact absurd (Except.ok.inj h) (by simp)
      · exact absurd h (by simp)
      · next digest hdigest =>
        split at h
        · exact absurd (Except.ok.inj h) (by simp)
        · next hmatch =>
          split at h
          · exact absurd (Except.ok.inj h) (by simp)
          · next hequal =>
            split at h
            · exact absurd (Except.ok.inj h) (by simp)
            · simp only [Bool.or_eq_true, Bool.not_eq_true', not_or, Bool.not_eq_false] at hmatch
              exact ⟨payload, hpayload, ⟨digest, hdigest⟩, (pyEq_str_right _ _).mp
                hmatch.1, hmatch.2,
                by simpa using hequal, identityBindingError_none (Except.ok.inj h)⟩
    · exact absurd (Except.ok.inj h) (by simp)

/-! ## The four kinds -/

/-- This call has queued the action: it read a queue without it and replaced it by the same queue
with one row more, for this action. -/
def QueuedBy (req : ActionRequest) (t : List (Event hostSig)) : Prop :=
  ∃ r rows item, (⟨.readJson .externalActions, .ok r⟩ : Event hostSig) ∈ t
    ∧ externalActionRows (r.getD (actionStore [])) = .ok rows
      ∧ rows.filter (isAction req.actionId) = []
    ∧ (⟨.replace .externalActions (actionStore (rows ++ [.obj item])), .ok ()⟩ : Event hostSig) ∈ t
    ∧ get (lit "action_id") item = req.actionId

/-- Where the queue did not hold the action, none of its rows is of it. -/
theorem findAction_none {req : ActionRequest} {rows : List Json} {requestSha256 : PyStr}
    (h : findAction C req rows = .ok (none, requestSha256)) :
    rows.filter (isAction req.actionId) = [] := by
  obtain ⟨_, -, h⟩ := except_bind_ok.mp h
  obtain ⟨sha, -, h⟩ := except_bind_ok.mp h
  split at h
  · next hrows => exact hrows
  · split at h
    · exact absurd (Prod.mk.inj (Except.ok.inj h)).1 (by simp)
    · exact absurd h (by simp)
  · exact absurd h (by simp)

/-- A row that is reported as created was queued by this call. -/
theorem enqueueExternalAction_created {req : ActionRequest} {result : Members}
    (h : Runs (enqueueExternalAction C req) t (.ok result))
    (hcreated : truthy (get (lit "external_action_created") result) = true) : QueuedBy req t := by
  obtain ⟨t₁, t₂, t₃, rfl, hbody⟩ := runs_withLock h
  obtain ⟨t₄, t₅, ttl, rfl, -, hbody⟩ := runs_bind hbody
  obtain ⟨t₆, t₇, data, rfl, hread, hbody⟩ := runs_bind hbody
  obtain ⟨t₈, t₉, rows, rfl, hrows, hbody⟩ := runs_bind hbody
  obtain ⟨t₁₀, t₁₁, ⟨existing, requestSha256⟩, rfl, hfind, hbody⟩ := runs_bind hbody
  dsimp only [Prog.bind_eq] at hbody
  have hrows := (runs_ofExcept hrows).2.symm
  have hfind := (runs_ofExcept hfind).2.symm
  obtain ⟨r, rfl, rfl⟩ := runs_readJson hread
  cases existing with
  | some row =>
    -- a row that was found is never reported as created
    exfalso
    have hold : ∀ row', truthy (get (lit "external_action_created") (withCreated row' false))
      = false := by
      intro row'
      unfold withCreated
      rw [get_setMember]
      rfl
    obtain ⟨row', rfl⟩ : ∃ row', result = withCreated row' false := by
      rcases reuseAction_ok hbody with hresult | ⟨hresult, -⟩
      · exact ⟨row, hresult⟩
      · exact hresult
    rw [hold] at hcreated
    exact absurd hcreated (by simp)
  | none =>
    obtain ⟨t₁₂, t₁₃, current, rfl, -, hbody⟩ := runs_bind hbody
    obtain ⟨t₁₄, t₁₅, item, rfl, hitem, hbody⟩ := runs_bind hbody
    obtain ⟨t₁₆, t₁₇, _, rfl, hwrite, hbody⟩ := runs_bind hbody
    have hitem := (runs_ofExcept hitem).2.symm
    refine ⟨r, rows, item, by simp, hrows, findAction_none hfind, ?_, ?_⟩
    · have := runs_writeJson hwrite
      simp [this]
    · unfold newAction at hitem
      split at hitem
      · exact absurd hitem (by simp)
      · obtain rfl := Except.ok.inj hitem
        rfl

/-- A question the owner may be asked, with the package that asks it. -/
inductive Genuine (C : Crypto) (m : Members) (t : List (Event hostSig)) (package : Members) : Prop
  | product (category : get (lit "category") m = .str (lit "product_decision"))
      (risk : get (lit "risk_level") m = .str (lit "L2"))
      (bound : Bound "L2" (get (lit "decision_id") m) (get (lit "decision_scope") m) package)
  | operation (category payload) (known : get (lit "category") m = .str category)
      (high : category ∈ operationCategories) (risk : get (lit "risk_level") m = .str (lit "L3"))
      (bound : PayloadBound C category m payload package)
      (same : canon (get (lit "operation_payload") package)
        = canon (get (lit "operation_payload") m))
  | action (category : get (lit "category") m = .str (lit "operational_action"))
      (bound : Bound "Operational" (get (lit "action_id") m) (get (lit "action_scope") m) package)
      (queued : ∃ req, req.actionId = get (lit "action_id") m ∧ QueuedBy req t)
  | uat (category : get (lit "category") m = .str (lit "necessary_uat"))
      (bound : Bound "UAT" (get (lit "uat_id") m) (get (lit "uat_scope") m) package)
      (queued : ∃ req, req.actionId = get (lit "uat_id") m ∧ QueuedBy req t)

/-- A request for an L3 operation whose package shows a payload that Python's `==` takes for the
requested one though it is another JSON value. -/
def ShowsTwin (m : Members) : Prop :=
  ∃ category input, get (lit "category") m = .str category ∧ category ∈ operationCategories
    ∧ get (lit "decision_package") m = .obj input
    ∧ pyEq (get (lit "operation_payload") input) (get (lit "operation_payload") m) = true
    ∧ canon (get (lit "operation_payload") input) ≠ canon (get (lit "operation_payload") m)

/-! ## Asking is genuine -/

/-- The payload a package shows is the one it was given. -/
theorem buildActionRequired_payload {input package : Members}
    (h : buildActionRequired C input = .ok package) :
    get (lit "operation_payload") package = get (lit "operation_payload") input := by
  unfold buildActionRequired at h
  obtain ⟨_, -, h⟩ := except_bind_ok.mp h
  obtain ⟨_, -, h⟩ := except_bind_ok.mp h
  obtain ⟨_, -, h⟩ := except_bind_ok.mp h
  obtain ⟨_, -, h⟩ := except_bind_ok.mp h
  obtain ⟨verified, -, h⟩ := except_bind_ok.mp h
  obtain ⟨options, -, h⟩ := except_bind_ok.mp h
  obtain ⟨_, -, h⟩ := except_bind_ok.mp h
  obtain ⟨_, -, h⟩ := except_bind_ok.mp h
  obtain ⟨_, -, h⟩ := except_bind_ok.mp h
  obtain ⟨_, -, h⟩ := except_bind_ok.mp h
  obtain ⟨_, -, h⟩ := except_bind_ok.mp h
  obtain ⟨_, -, h⟩ := except_bind_ok.mp h
  dsimp only at h
  split at h
  · obtain rfl := Except.ok.inj h
    unfold packageMembers
    generalize get (lit "operation_payload") input = payload
    cases payload <;> simp [Python.get, lookup]
  · exact absurd h (by simp)

/-- A package that is read is built from the request's own input and bound to it. -/
theorem readPackage_ok {r : Request} {package : Members}
    (h : readPackage C r = .ok (.inr package)) :
    ∃ input, r.field "decision_package" = .obj input ∧ buildActionRequired C input = .ok package
      ∧ actionRequiredBindingError C r.risk r.category r.members package = .ok none := by
  unfold readPackage at h
  split at h
  · next input hinput =>
    split at h
    · split at h
      · exact absurd (Except.ok.inj h) (by simp)
      · exact absurd h (by simp)
    · next package' hbuild =>
      split at h
      · exact absurd h (by simp)
      · exact absurd (Except.ok.inj h) (by simp)
      · next hbinding =>
        obtain rfl := Sum.inr.inj (Except.ok.inj h)
        exact ⟨input, hinput, hbuild, hbinding⟩
  · exact absurd (Except.ok.inj h) (by simp)

/-- The categories whose requests may carry a package. -/
theorem category_of_package {category : PyStr} {input : Members}
    (hkeys : keysWithin m (["risk_level", "category", "effects"].map lit ++ categoryFields category)
      = true) (h : get (lit "decision_package") m = .obj input) :
    category = lit "product_decision" ∨ category ∈ operationCategories
      ∨ category = lit "operational_action" ∨ category = lit "necessary_uat"
      ∨ category = lit "uncertainty" := by
  have hmem : lit "decision_package" ∈ categoryFields category := by
    have hkey : lit "decision_package" ∈ keys m := by
      apply (lookup_isSome_iff _ _).mp
      unfold Python.get at h
      cases hl : lookup (lit "decision_package") m with
      | none => rw [hl] at h; exact absurd h (by simp)
      | some v => rfl
    have hnames := List.all_eq_true.mp hkeys _ hkey
    simpa using hnames
  unfold categoryFields at hmem
  split at hmem
  · next hc => exact .inl hc
  · split at hmem
    · next hc => exact .inr (.inl hc)
    · split at hmem
      · next hc => exact .inr (.inr (.inl hc))
      · split at hmem
        · next hc => exact .inr (.inr (.inr (.inl hc)))
        · split at hmem
          · next hc => exact .inr (.inr (.inr (.inr hc)))
          · split at hmem
            · exact absurd hmem (by simp)
            · exact absurd hmem (by simp)

theorem classify_uncertainty {r : Request} (h : classify r = none) :
    r.category ≠ lit "uncertainty" := by
  intro hc
  unfold classify at h
  rw [if_neg (by rw [hc]; simp), if_neg (by rw [hc]; simp), if_pos hc] at h
  split at h
  · exact absurd h (by simp)
  · exact absurd h (by simp)

theorem QueuedBy.append_left {req : ActionRequest} (h : QueuedBy req t)
    (t₀ : List (Event hostSig)) :
    QueuedBy req (t₀ ++ t) := by
  obtain ⟨r, rows, item, hread, hrows, hnone, hwrite, hid⟩ := h
  exact ⟨r, rows, item, List.mem_append_right _ hread, hrows, hnone,
    List.mem_append_right _ hwrite, hid⟩

/-- A request that asks is of one of the four kinds, with its payload the same up to `==`. -/
theorem asks_genuine {r : Request} {package : Members} {v : Verdict} {t₁ t₂ : List (Event hostSig)}
    (hs : screen m = .ok (.inr r)) (hclassify : classify r = none) (h : Asks C r t₂ package v)
    (hsame : ¬ShowsTwin m) : Genuine C m (t₁ ++ t₂) package := by
  obtain ⟨hread, henv, hcat⟩ := screen_ok hs
  obtain ⟨rfl, hrisk, -, hcategory, -, -, -⟩ := readRequest_ok hread
  obtain ⟨input, hinput, hbuild, hbinding⟩ := readPackage_ok h.read
  obtain ⟨hproduct, hhigh, hrisky⟩ := categoryError_none hcat
  unfold actionRequiredBindingError at hbinding
  rcases category_of_package (envelopeError_none henv) hinput with hc | hc | hc | hc | hc
  · rw [if_pos hc] at hbinding
    rw [hc] at hcategory
    rw [hproduct hc] at hrisk
    exact .product hcategory hrisk (identityBindingError_none (Except.ok.inj hbinding))
  · have hnot : r.category ≠ lit "product_decision" := by
      intro hp
      rw [hp] at hc
      exact absurd hc (by decide)
    rw [if_neg hnot, if_pos hc] at hbinding
    obtain ⟨payload, hbound⟩ := operationBindingError_none hbinding
    have hl3 : r.risk = lit "L3" := by
      rcases List.mem_append.mp hc with hmem | hmem
      · exact hrisky (.inl hmem)
      · exact hhigh (List.mem_singleton.mp hmem)
    rw [hl3] at hrisk
    refine .operation r.category payload hcategory hc hrisk hbound ?_
    -- the two payloads are equal, so they are the same unless one is a twin
    by_contra hne
    rw [buildActionRequired_payload hbuild] at hne
    refine hsame ⟨r.category, input, hcategory, hc, hinput, ?_, hne⟩
    rw [← buildActionRequired_payload hbuild, hbound.carried]
    exact hbound.equal
  · rw [if_neg (by rw [hc]; simp), if_neg (by rw [hc]; decide), if_pos hc] at hbinding
    obtain ⟨row, henqueue, hcreated⟩ := h.created (by unfold Request.isHuman; rw [hc]; decide)
    rw [hc] at hcategory
    refine .action hcategory (identityBindingError_none (Except.ok.inj hbinding))
      ⟨_, ?_, (enqueueExternalAction_created henqueue hcreated).append_left t₁⟩
    unfold actionRequest
    rw [if_pos hc]
    rfl
  · rw [if_neg (by rw [hc]; simp), if_neg (by rw [hc]; decide), if_neg (by rw [hc]; simp),
      if_pos hc] at hbinding
    obtain ⟨row, henqueue, hcreated⟩ := h.created (by unfold Request.isHuman; rw [hc]; decide)
    rw [hc] at hcategory
    refine .uat hcategory (identityBindingError_none (Except.ok.inj hbinding))
      ⟨_, ?_, (enqueueExternalAction_created henqueue hcreated).append_left t₁⟩
    unfold actionRequest
    rw [if_neg (by rw [hc]; simp)]
    rfl
  · exact absurd hc (classify_uncertainty hclassify)

/-- A genuine question shows the requested payload itself. -/
theorem genuine_not_twin {r : Request} {package : Members} {v : Verdict}
    {t₁ t₂ : List (Event hostSig)} (hs : screen m = .ok (.inr r)) (h : Asks C r t₁ package v)
    (hgenuine : Genuine C m t₂ package) : ¬ShowsTwin m := by
  rintro ⟨category, input, hcategory, hhigh, hinput, -, hne⟩
  obtain ⟨input', hinput', hbuild, -⟩ := readPackage_ok h.read
  obtain rfl := (readRequest_ok (screen_ok hs).1).1
  have hother : ∀ name : String, get (lit "category") r.members = .str (lit name) →
      lit name ∉ operationCategories → False := by
    intro name hname hnot
    rw [hcategory] at hname
    exact hnot (Json.str.inj hname ▸ hhigh)
  have hsame : canon (get (lit "operation_payload") package)
      = canon (get (lit "operation_payload") r.members) := by
    cases hgenuine with
    | product hc => exact (hother _ hc (by decide)).elim
    | operation _ _ _ _ _ _ hsame => exact hsame
    | action hc => exact (hother _ hc (by decide)).elim
    | uat hc => exact (hother _ hc (by decide)).elim
  unfold Request.field at hinput'
  rw [hinput] at hinput'
  obtain rfl := Json.obj.inj hinput'
  rw [buildActionRequired_payload hbuild] at hsame
  exact hne hsame

/-- **`ACTION_REQUIRED` is a genuine, exactly bound question**, for every request, whatever the
stores and the host answer, if and only if the request does not show the owner a twin of the
payload it asks for. -/
theorem actionRequired_iff (C : Crypto) {m : Members} {t : List (Event hostSig)} {v : Verdict}
    (h : Runs (evaluateEscalation C m) t (.ok v)) (hv : v.state = .actionRequired) :
    ∃ package, lookup (lit "decision_package") v.details = some (.obj package)
      ∧ (Genuine C m t package ↔ ¬ShowsTwin m) := by
  obtain ⟨r, package, t₁, t₂, hs, hclassify, rfl, hasks⟩ := evaluateEscalation_asks h hv
  exact ⟨package, hasks.shown, genuine_not_twin hs hasks, asks_genuine hs hclassify hasks⟩

/-! ## A question and its twin -/

/-- The sample payload for one amount. -/
def amountPayload (amount : Json) : Json :=
  .obj (setMember (lit "parameters") (.obj [(lit "amount", amount)]) samplePayload)

/-- One option of the sample package. -/
def sampleOption (label : String) : Json :=
  .obj [(lit "label", .str (lit label)), (lit "description", .str (lit label))]

/-- A request for an amount of one whose package shows this amount. -/
def amountRequest (shown : Json) : Members :=
  setMember (lit "operation_payload") (amountPayload (.int 1)) sampleRequest
    ++ [(lit "decision_package", .obj
      [(lit "decision_id", .str (lit "APP-1")), (lit "risk_level", .str (lit "L3")),
        (lit "why_human_input_is_required", .str (lit "a real payment")),
        (lit "what_agent_already_verified", .arr [.str (lit "the amount")]),
        (lit "options", .arr [sampleOption "pay", sampleOption "stop"]),
        (lit "recommended", .str (lit "pay")), (lit "why", .str (lit "it is due")),
        (lit "impact_if_no_decision", .str (lit "no refund")),
        (lit "scope_of_approval", .str (lit "one refund")),
        (lit "operation_payload", amountPayload shown)])]

/-- The digests of what is asked and of what is shown. -/
def amountCrypto : Crypto :=
  .ofTables
    [(canonicalBytes (amountPayload (.int 1)),
        0xafed8c497ddfe44cc81c74d1deaf02cdd3abd2f8863461e9a23e74d83e1731d8),
      (canonicalBytes (amountPayload (.bool true)),
        0x53c1bcf9342a9546b75115336c8c4a976a9fd7c07107ad0fff79a92c3af5c828)]
    []

/-- Its escalation where no decision is on record. -/
def amountEscalation (shown : Json) : List (Event hostSig) × Outcome Exn Verdict :=
  (evaluateEscalation amountCrypto (amountRequest shown)).answered (sampleHost .null).answer

/-- The result asks the owner. -/
def isAsking : Outcome Exn Verdict → Bool
  | .ok v => decide (v.state = .actionRequired)
  | .error _ => false

/-- The sample's escalation as a run of the program. -/
theorem runs_amountEscalation {shown : Json} (h : isAsking (amountEscalation shown).2 = true) :
    ∃ t v, Runs (evaluateEscalation amountCrypto (amountRequest shown)) t (.ok v)
      ∧ v.state = .actionRequired := by
  have hrun := runs_answered (sampleHost .null).answer
    (evaluateEscalation amountCrypto (amountRequest shown))
  unfold isAsking amountEscalation at h
  split at h
  · next v hv =>
    rw [hv] at hrun
    exact ⟨_, v, hrun, of_decide_eq_true h⟩
  · exact absurd h (by simp)

/-- The amount itself is shown: the question is genuine because there is no twin. -/
theorem actionRequired_amount :
    ∃ t v package, Runs (evaluateEscalation amountCrypto (amountRequest (.int 1))) t (.ok v)
      ∧ lookup (lit "decision_package") v.details = some (.obj package)
      ∧ (Genuine amountCrypto (amountRequest (.int 1)) t package
        ↔ ¬ShowsTwin (amountRequest (.int 1))) := by
  obtain ⟨t, v, hrun, hv⟩ := @runs_amountEscalation (.int 1) (by decide +kernel)
  obtain ⟨package, hshown, hiff⟩ := actionRequired_iff amountCrypto hrun hv
  exact ⟨t, v, package, hrun, hshown, hiff⟩

/-- The owner is shown `true` where the request says `1`. -/
theorem actionRequired_twin :
    ¬∀ (C : Crypto) m t v, Runs (evaluateEscalation C m) t (.ok v) → v.state = .actionRequired →
      ∃ package, lookup (lit "decision_package") v.details = some (.obj package)
        ∧ Genuine C m t package := by
  intro hall
  obtain ⟨t, v, hrun, hv⟩ := @runs_amountEscalation (.bool true) (by decide +kernel)
  obtain ⟨package, hshown, hgenuine⟩ := hall _ _ t v hrun hv
  obtain ⟨r, package', t₁, t₂, hs, -, -, hasks⟩ := evaluateEscalation_asks hrun hv
  rw [hasks.shown] at hshown
  obtain rfl := Json.obj.inj (Option.some.inj hshown)
  apply genuine_not_twin hs hasks hgenuine
  exact ⟨lit "real_payment", _, rfl, by decide, rfl, by decide, by decide⟩

end SddGov.Autonomy
