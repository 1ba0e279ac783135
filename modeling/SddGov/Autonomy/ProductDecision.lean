import SddGov.Autonomy.Reuse
import SddGov.Effect.Returns

/-!
# Product decisions that are verified again

`verify_product_decision` reads a request file once more and compares it with
the decision on record. What it and `evaluate_escalation` accept of a
plain-language decision is `PlainAccepted`; and what `record_decision` has
recorded both accept, as long as the profile, the request file and the row of
the decision stay as they were (`plain_decision_exact`).
-/

namespace SddGov.Autonomy

open SddGov.Effect SddGov.Python SddGov.Governance

variable {C : Crypto} {t : List (Event hostSig)}

/-! ## `verify_product_decision` -/

/-- The request is an L2 product request for this decision. -/
def isProductRequest (decisionId : Json) (m : Members) : Bool :=
  pyEq (get (lit "risk_level") m) (.str (lit "L2"))
    && pyEq (get (lit "category") m) (.str (lit "product_decision"))
    && pyEq (get (lit "effects") m) (.obj [])
    && (closedCategoryEnvelopeError (lit "product_decision") m).isNone
    && pyEq (get (lit "decision_id") m) decisionId

/-- `except (TypeError, ValueError)`. -/
def invalidInput (message : String) {α : Type} : Except Exn α → Except Exn α
  | .error .type => .error (valueError message)
  | .error (.value _) => .error (valueError message)
  | x => x

/-- The request in the bytes that were read, once it and its package are checked. -/
def checkProductRequest (C : Crypto) (raw : Bytes) (decisionId : Json) : Except Exn Members := do
  let request ← loadUniqueJsonBytes raw "product decision request"
  match request with
  | .obj m => do
    require (isProductRequest decisionId m)
      "product decision request has an invalid exact L2 contract"
    match get (lit "decision_package") m with
    | .obj input => do
      let package ← invalidInput "product decision request has an invalid Decision Package"
        (buildActionRequired C input)
      let bindingError ← actionRequiredBindingError C (lit "L2") (lit "product_decision") m package
      require bindingError.isNone "product decision request package is not bound to its scope"
      let _ ← requireBoundedAbCard package
      pure m
    | _ => .error (valueError "product decision request lacks one exact Decision Package")
  | _ => .error (valueError "product decision request has an invalid exact L2 contract")

/-- The end of `verify_product_decision` where no decision is on record. -/
def missingDecision : HostProg Members := do
  let profile ← projectProfile
  .raise (valueError (if profile = lit "team-standard"
    then "stored plain-language product decision is missing"
    else "stored product decision failed cryptographic verification"))

/-- A value that is a string and, by `secrets.compare_digest`, the digest. A string that is not
ASCII cannot be compared. -/
def isRecordedDigest (value : Json) (digest : PyStr) : Except Exn Bool :=
  match value with
  | .str text => if isAscii text then .ok (text == digest) else .error .type
  | _ => .ok false

/-- The row was recorded for a request of this path with these bytes. -/
def isRecordedFor (C : Crypto) (decision m : Members) (requestPath : PyStr) (raw : Bytes) :
    Except Exn Bool :=
  if keysEq m (plainRequestFields.map lit) && pyEq (get (lit "request_path") decision)
    (.str requestPath) then
    isRecordedDigest (get (lit "request_sha256") decision) (C.sha256 raw)
  else .ok false

/-- The result for a plain-language decision. -/
def plainVerified (decisionId : Json) (decision : Members) : Members :=
  [(lit "decision_id", decisionId),
    (lit "verification", .str (lit "PLAIN_LANGUAGE_DECISION_VERIFIED")),
    (lit "approval_mode", get (lit "approval_mode") decision),
    (lit "profile", get (lit "profile") decision),
      (lit "recorded_at", get (lit "recorded_at") decision)]

/-- The end of `verify_product_decision` for a plain-language decision. -/
def verifyPlain (C : Crypto) (decisionId : Json) (decision m : Members) (requestPath : PyStr)
    (raw : Bytes) : HostProg Members := do
  let mismatch := valueError "stored plain-language product decision does not match the request"
  let isRecorded ← Prog.ofExcept (isRecordedFor C decision m requestPath raw)
  if !isRecorded then .raise mismatch
  else do
    let isMatch ← plainL2ApprovalMatches C decision (get (lit "decision_scope") m)
      (get (lit "decision_package") m)
    if isMatch then pure (plainVerified decisionId decision) else .raise mismatch

/-- The decision on record decides how the request is verified; `signed` is the end for a signed
decision. -/
def verifyRecorded (C : Crypto) (signed : Members → Members → Bytes → HostProg Members)
    (decisionId : Json) (requestPath : PyStr) (raw : Bytes) (m : Members) : HostProg Members := do
  let recorded ← findDecision decisionId
  match recorded with
  | none => missingDecision
  | some decision =>
    if isPlainDecision decision then verifyPlain C decisionId decision m requestPath raw
    else signed decision m raw

/-- `verify_product_decision`. -/
def verifyProductDecision (C : Crypto) (signed : Members → Members → Bytes → HostProg Members)
    (decisionId : Json) (requestPath : PyStr) : HostProg Members := do
  Prog.ofExcept (require (!requestPath.isEmpty && !requestPath.contains (cp 0)
    && isRelativePath requestPath)
    "product decision request must be repository-relative")
  withSnapshot .repository (do
    let raw ← raising (ask (.readSnapshot requestPath))
    let m ← Prog.ofExcept (checkProductRequest C raw decisionId)
    verifyRecorded C signed decisionId requestPath raw m)

/-! ## What is accepted -/

/-- The incoming package, where there is one, builds to the package in the file. -/
def SamePackage (C : Crypto) (raw : Bytes) (incoming : Json) : Prop :=
  incoming = .null ∨ ∃ built recorded, buildPackage C incoming = .ok built
    ∧ recordedPackage C raw = .ok recorded ∧ loadedEq (.obj built) (.obj recorded) = true

/-- A plain-language decision that is accepted for a scope and a package: the profile is
`team-standard`, the scope is the recorded one, the bytes at the recorded path have the recorded
digest, and the package is the one in them. -/
structure PlainAccepted (C : Crypto) (decision : Members) (scope incoming : Json)
    (t : List (Event hostSig)) : Prop where
  profile : ∃ project, (⟨.readJson .project, .ok (some (.obj project))⟩ : Event hostSig) ∈ t
    ∧ get (lit "profile") project = .str (lit "team-standard")
  scope : SameScope decision scope
  bytes : ∃ path raw, get (lit "request_path") decision = .str path
    ∧ (⟨.readSnapshot path, .ok raw⟩ : Event hostSig) ∈ t
    ∧ get (lit "request_sha256") decision = .str (C.sha256 raw) ∧ SamePackage C raw incoming

theorem PlainAccepted.mono {decision : Members} {scope incoming : Json} {t' : List (Event hostSig)}
    (h : PlainAccepted C decision scope incoming t) (hsub : ∀ event ∈ t, event ∈ t') :
    PlainAccepted C decision scope incoming t' := by
  obtain ⟨⟨project, hread, hprofile⟩, hscope, path, raw, hpath, hmem, hrest⟩ := h
  exact ⟨⟨project, hsub _ hread, hprofile⟩, hscope, path, raw, hpath, hsub _ hmem, hrest⟩

/-- The profile is the one of the project file that was read. -/
theorem projectProfile_ok {profile : PyStr} (h : Runs projectProfile t (.ok profile)) :
    ∃ project, (⟨.readJson .project, .ok (some (.obj project))⟩ : Event hostSig) ∈ t
      ∧ get (lit "profile") project = .str profile := by
  obtain ⟨t₁, t₂, data, rfl, hread, hlast⟩ := runs_bind h
  obtain ⟨data, rfl, rfl⟩ := runs_readJson hread
  have hprofile := (runs_ofExcept hlast).2.symm
  cases data with
  | none => exact absurd hprofile (by simp)
  | some data =>
    cases data with
    | obj project =>
      obtain ⟨known, hknown, hprofile⟩ := except_bind_ok.mp hprofile
      refine ⟨project, by simp, ?_⟩
      split at hprofile
      · next heq =>
        obtain rfl := Except.ok.inj hprofile
        exact heq
      · exact absurd hprofile (by simp)
    | _ => exact absurd hprofile (by simp)

theorem checkPlainProfile_true {decision : Members}
    (h : Runs (checkPlainProfile decision) t (.ok true)) :
    ∃ project, (⟨.readJson .project, .ok (some (.obj project))⟩ : Event hostSig) ∈ t
      ∧ get (lit "profile") project = .str (lit "team-standard") := by
  obtain ⟨t₁, t₂, profile, rfl, hprofile, h⟩ := runs_bind h
  split at h
  · exact absurd (Except.ok.inj (runs_ret h).2) (by simp)
  · next hteam =>
    obtain rfl := not_not.mp hteam
    obtain ⟨project, hmem, heq⟩ := projectProfile_ok hprofile
    exact ⟨project, by simp [hmem], heq⟩

theorem checkIncoming_ok {raw : Bytes} {incoming : Json}
    (h : checkIncoming C raw incoming = .ok ()) :
    SamePackage C raw incoming := by
  unfold checkIncoming at h
  split at h
  · exact .inl rfl
  · obtain ⟨package, hpackage, hcheck⟩ := except_bind_ok.mp h
    split at hcheck
    · exact absurd hcheck (by simp)
    · next built hbuilt => exact .inr ⟨built, package, hbuilt, hpackage, require_ok.mp hcheck⟩

theorem plainL2ApprovalMatches_accepted {decision : Members} {scope incoming : Json}
    (h : Runs (plainL2ApprovalMatches C decision scope incoming) t (.ok true)) :
    PlainAccepted C decision scope incoming t := by
  obtain ⟨hrow, t₁, t₂, rfl, hprofiled, path, label, raw, hread⟩ := plainL2ApprovalMatches_run h
  obtain ⟨project, hproject, hprofile⟩ := checkPlainProfile_true (runs_noneOnValueError hprofiled)
  refine ⟨⟨project, by simp [hproject], hprofile⟩, (isPlainRow_scope hrow).2, path, raw,
    hread.recorded,
    hread.read, hread.digest, checkIncoming_ok hread.incoming⟩

/-- The request that was checked is the one in the file. -/
theorem checkProductRequest_ok {raw : Bytes} {decisionId : Json} {m : Members}
    (h : checkProductRequest C raw decisionId = .ok m) :
    loadUniqueJsonBytes raw "product decision request" = .ok (.obj m) := by
  obtain ⟨request, hload, hcheck⟩ := except_bind_ok.mp h
  split at hcheck
  · next members =>
    obtain ⟨_, -, hcheck⟩ := except_bind_ok.mp hcheck
    split at hcheck
    · obtain ⟨_, -, hcheck⟩ := except_bind_ok.mp hcheck
      obtain ⟨_, -, hcheck⟩ := except_bind_ok.mp hcheck
      obtain ⟨_, -, hcheck⟩ := except_bind_ok.mp hcheck
      obtain ⟨_, -, hcheck⟩ := except_bind_ok.mp hcheck
      obtain rfl := Except.ok.inj hcheck
      exact hload
    · exact absurd hcheck (by simp)
  · exact absurd hcheck (by simp)

/-- What `verify_product_decision` accepts of a plain-language decision. -/
theorem verifyProductDecision_ok {signed : Members → Members → Bytes → HostProg Members}
    {decisionId : Json} {requestPath : PyStr} {result : Members}
    (h : Runs (verifyProductDecision C signed decisionId requestPath) t (.ok result)) :
    ∃ decision, StoredDecision decisionId decision t ∧ (isPlainDecision decision = true →
      ∃ raw m, (⟨.readSnapshot requestPath, .ok raw⟩ : Event hostSig) ∈ t
        ∧ loadUniqueJsonBytes raw "product decision request" = .ok (.obj m)
        ∧ PlainAccepted C decision (get (lit "decision_scope") m)
          (get (lit "decision_package") m) t) := by
  obtain ⟨t₁, t₂, _, rfl, -, h⟩ := runs_bind h
  obtain ⟨t₃, hbody, hsub⟩ := runs_withSnapshot h
  obtain ⟨t₄, t₅, raw, rfl, hread, h⟩ := runs_bind hbody
  obtain ⟨t₆, t₇, m, rfl, hrequest, h⟩ := runs_bind h
  obtain ⟨t₈, t₉, recorded, rfl, hfind, h⟩ := runs_bind h
  have hraw := runs_readSnapshot hread
  cases recorded with
  | none =>
    obtain ⟨_, _, _, -, -, hraise⟩ := runs_bind h
    exact absurd (runs_raise hraise).2 (by simp)
  | some decision =>
    obtain ⟨data, store, hmem, hstore⟩ := findDecision_some hfind
    have hstored := hsub _ (List.mem_append_right t₄
      (List.mem_append_right t₆ (List.mem_append_left t₉ hmem)))
    refine ⟨decision, ⟨data, store, List.mem_append_right t₁ hstored, hstore⟩, fun hplain => ?_⟩
    dsimp only at h
    rw [if_pos hplain] at h
    unfold verifyPlain at h
    obtain ⟨t₁₂, t₁₃, isRecorded, rfl, hrecorded, hrest⟩ := runs_bind h
    obtain ⟨rfl, -⟩ := runs_ofExcept hrecorded
    split at hrest
    · exact absurd (runs_raise hrest).2 (by simp)
    · obtain ⟨t₁₀, t₁₁, isMatch, rfl, hmatch, hret⟩ := runs_bind hrest
      cases isMatch with
      | false => exact absurd (runs_raise hret).2 (by simp)
      | true =>
        have hloaded := checkProductRequest_ok (runs_ofExcept hrequest).2.symm
        have haccepted := plainL2ApprovalMatches_accepted hmatch
        refine ⟨raw, m, ?_, hloaded, haccepted.mono fun event he => ?_⟩
        · exact List.mem_append_right _ (hsub _ (by simp [hraw]))
        · exact List.mem_append_right _ (hsub _ (by simp [he]))

/-- What `evaluate_escalation` accepts of a plain-language decision. -/
theorem reuse_accepted {m : Members} {v : Verdict} (h : Runs (evaluateReuse C m) t (.ok v))
    (hcategory : get (lit "category") m = .str (lit "product_decision")) (hv : v.Reuses) :
    ∃ decision, StoredDecision (get (lit "decision_id") m) decision t
    ∧ (isPlainDecision decision = true →
      PlainAccepted C decision (get (lit "decision_scope") m)
      (get (lit "decision_package") m) t) := by
  obtain ⟨t', hexpands, hrun⟩ := runs_expand_iff.mp h
  obtain ⟨r, hr, hreuse⟩ := reuses_stage hrun hcategory hv
  obtain ⟨t₁, t₂, recorded, rfl, hfind, h⟩ := runs_bind hreuse
  obtain rfl := hr.members
  cases recorded with
  | none => exact absurd (Except.ok.inj (runs_ret h).2) (by simp)
  | some decision =>
    obtain ⟨t₃, t₄, plain, rfl, hplain, h⟩ := runs_bind h
    obtain ⟨t₅, t₆, isMatch, rfl, hmatch, hret⟩ := runs_bind h
    obtain ⟨data, store, hread, hstore⟩ := findDecision_some hfind
    refine ⟨decision, ⟨data, store, hexpands.mem (List.mem_append_left _ hread) rfl, hstore⟩,
      fun hkind => ?_⟩
    cases isMatch with
    | false => exact absurd (Except.ok.inj (runs_ret hret).2) (by simp)
    | true =>
      cases plain with
      | true =>
        unfold plainMatches at hplain
        rw [if_pos hkind] at hplain
        obtain ⟨answer, rfl, hanswer⟩ := runs_ask (runs_raising hplain)
        obtain rfl := Except.ok.inj hanswer
        obtain ⟨t₇, hmatched, hsub⟩ := hexpands.run_of_mem
          (List.mem_append_right t₁ (List.mem_cons_self ..)) rfl
        exact (plainL2ApprovalMatches_accepted (runs_answering hmatched)).mono hsub
      | false =>
        -- the second matcher looks at no package, so none may have come with the request
        have hverdict := Option.some.inj (Except.ok.inj (runs_ret hret).2)
        have hnone : hasKey (lit "decision_package") r.members = false := by
          by_contra hkey
          have hkey : hasKey (lit "decision_package") r.members = true := by simpa using hkey
          unfold reusedVerdict at hverdict
          rw [hkey, hkind] at hverdict
          obtain rfl := hverdict
          exact absurd hv.1 (by simp [blockedFor, blockedWith])
        have hpackage : get (lit "decision_package") r.members = .null := by
          unfold hasKey at hnone
          unfold Python.get
          rw [Option.isSome_eq_false_iff, Option.isNone_iff_eq_none] at hnone
          rw [hnone]
          rfl
        obtain ⟨answer, rfl, hanswer⟩ := runs_ask (runs_raising hmatch)
        obtain rfl := Except.ok.inj hanswer
        obtain ⟨t₇, hmatched, hsub⟩ := hexpands.run_of_mem
          (List.mem_append_right t₁ (List.mem_append_right t₃ (List.mem_cons_self ..))) rfl
        have hrun := runs_answering hmatched
        unfold l2ApprovalMatches at hrun
        rw [if_pos hkind] at hrun
        rw [hpackage]
        exact (plainL2ApprovalMatches_accepted hrun).mono hsub

end SddGov.Autonomy
