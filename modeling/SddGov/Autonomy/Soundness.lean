import SddGov.Autonomy.SingleUse

/-!
# When a sensitive request may continue

A request is sensitive when it declares an effect or is of an L3 category. It
should continue only on the owner's word for it, or where it is other work that
goes on (`Permitted`). Every path but two keeps to that: a checkpoint and a
machine-verifiable uncertainty are answered `CONTINUE` before their declared
effects are looked at (`DeclaredHarmless`), and these are exactly the sensitive
requests that get through (`continue_permitted_iff`).
-/

namespace SddGov.Autonomy

open SddGov.Effect SddGov.Python SddGov.Governance

variable {C : Crypto} {m : Members} {t : List (Event hostSig)}

/-- A request with an effect or of an L3 category. -/
def Sensitive (m : Members) : Prop :=
  (∃ effects, get (lit "effects") m = .obj effects ∧ effects ≠ [])
    ∨ ∃ category, get (lit "category") m = .str category ∧ category ∈ operationCategories

/-- What may let it continue: an approval of its exact payload that this call consumed, other work
that goes on, or the owner's completed resolution of the very action it asks for. -/
def Permitted (C : Crypto) (m : Members) (t : List (Event hostSig)) : Prop :=
  (∃ o, Authorizes C (get (lit "approval_id") m) (get (lit "operation_id") m)
      (get (lit "operation_payload") m) o t
    ∧ canon o.receipt.operationPayload = canon (get (lit "operation_payload") m))
  ∨ truthy (get (lit "unrelated_work_exists") m) = true
  ∨ ∃ r package, screen m = .ok (.inr r) ∧ r.isHuman = true
    ∧ readPackage C r = .ok (.inr package) ∧ Resolves C (actionRequest r package) t

/-- Where a signed payload was compared with the payload of the request by its digest, the canonical
bytes of the two are no collision of SHA-256. -/
def PayloadsApart (C : Crypto) (m : Members) (t : List (Event hostSig)) : Prop :=
  ∀ o, Authorizes C (get (lit "approval_id") m) (get (lit "operation_id") m)
      (get (lit "operation_payload") m) o t →
    NoCollision C (canonicalBytes o.receipt.operationPayload)
      (canonicalBytes (get (lit "operation_payload") m))

/-- An L3 request with effects that calls itself a checkpoint, or an uncertainty that a machine can
verify and that leaves no other work. -/
structure DeclaredHarmless (m : Members) : Prop where
  risk : get (lit "risk_level") m = .str (lit "L3")
  effects : ∃ effects, lookup (lit "effects") m = some (.obj effects) ∧ effects ≠ []
    ∧ validEffects effects = true ∧ hasKey (lit "public_publish") effects = false
  category : get (lit "category") m = .str (lit "checkpoint")
      ∧ keysWithin m (["risk_level", "category", "effects"].map lit) = true
    ∨ get (lit "category") m = .str (lit "uncertainty")
      ∧ keysWithin m (["risk_level", "category", "effects", "machine_verifiable",
        "unrelated_work_exists", "decision_package"].map lit) = true
      ∧ isTrue (get (lit "machine_verifiable") m) = true
      ∧ truthy (get (lit "unrelated_work_exists") m) = false

/-! ## Every other sensitive request -/

/-- The guards of a request that got through its category checks. -/
theorem categoryError_none {r : Request} (h : categoryError r = none) :
    (r.category = lit "product_decision" → r.risk = lit "L2")
      ∧ (r.category = lit "high_risk_operation" → r.risk = lit "L3")
      ∧ (r.category ∈ highRiskCategories ∨ r.effects ≠ [] → r.risk = lit "L3") := by
  unfold categoryError at h
  obtain ⟨-, h⟩ := guard_eq_none.mp h
  obtain ⟨-, h⟩ := guard_eq_none.mp h
  obtain ⟨-, h⟩ := guard_eq_none.mp h
  obtain ⟨-, h⟩ := guard_eq_none.mp h
  obtain ⟨hproduct, h⟩ := guard_eq_none.mp h
  obtain ⟨hop, h⟩ := guard_eq_none.mp h
  obtain ⟨hrisk, -⟩ := guard_eq_none.mp h
  exact ⟨fun hc => by_contra fun hr => hproduct ⟨hc, hr⟩, fun hc => by_contra fun hr =>
    hop ⟨hc, hr⟩,
    fun hc => by_contra fun hr => hrisk ⟨hc, hr⟩⟩

/-- A sensitive request is an L3 request, or it is turned away. -/
theorem sensitive_risk {r : Request} (hs : screen m = .ok (.inr r)) (h : Sensitive m) :
    r.risk = lit "L3" := by
  obtain ⟨hread, -, hcat⟩ := screen_ok hs
  obtain ⟨rfl, -, -, hcategory, -, heffects, -⟩ := readRequest_ok hread
  obtain ⟨-, hop, hrisk⟩ := categoryError_none hcat
  rcases h with ⟨effects, heff, hne⟩ | ⟨category, hc, hmem⟩
  · apply hrisk
    right
    unfold Python.get at heff
    rw [heffects] at heff
    rwa [Json.obj.inj heff]
  · rw [hcategory] at hc
    obtain rfl := Json.str.inj hc
    rcases List.mem_append.mp hmem with hhigh | hhigh
    · exact hrisk (.inl hhigh)
    · exact hop (List.mem_singleton.mp hhigh)

/-- An L3 request that is answered without a record is one of three kinds. -/
theorem classify_l3 {r : Request} {v : Verdict} (hrisk : r.risk = lit "L3")
    (h : classify r = some v) (hv : v.state = .continue_) :
    r.category = lit "checkpoint" ∨ r.unrelatedWork = true
      ∨ r.category = lit "uncertainty" ∧ isTrue (r.field "machine_verifiable") = true := by
  have hlow : r.isLowRisk = false := by
    unfold Request.isLowRisk
    rw [hrisk]
    decide
  unfold classify at h
  rw [hlow] at h
  split at h
  · next hc => exact .inl hc
  · have hwork : ∀ {reason nextAction otherwise : String} {details : Members},
        (unrelatedOnly r reason nextAction otherwise details).state = .continue_ →
          r.unrelatedWork = true := by
      intro _ _ _ _ hs
      by_contra hw
      simp [unrelatedOnly, hw] at hs
    split at h
    · obtain rfl := Option.some.inj h
      exact .inr (.inl (hwork hv))
    · split at h
      · next hc =>
        split at h
        · next hmv => exact .inr (.inr ⟨hc, hmv⟩)
        · obtain rfl := Option.some.inj h
          exact .inr (.inl (hwork hv))
      · simp at h

/-- A request that got through its envelope checks has the fields of its category only. -/
theorem envelopeError_none {r : Request} (h : envelopeError r = none) :
    keysWithin r.members
      (["risk_level", "category", "effects"].map lit ++ categoryFields r.category) = true := by
  unfold envelopeError at h
  split at h
  · exact absurd h (by simp)
  · have hclosed : closedCategoryEnvelopeError r.category r.members = none := by
      generalize (if r.isLowRisk = true then l0L1EnvelopeError r.category r.members else none) = low
        at h
      cases low with
      | some reason => exact absurd h (by simp)
      | none => simpa using h
    unfold closedCategoryEnvelopeError at hclosed
    split at hclosed
    · exact absurd hclosed (by simp)
    · split at hclosed
      · next hk => exact hk
      · exact absurd hclosed (by simp)

/-- The queue as this call found it, whatever it did before. -/
theorem Resolves.append_left {req : ActionRequest} {t : List (Event hostSig)}
    (h : Resolves C req t) (t₀ : List (Event hostSig)) : Resolves C req (t₀ ++ t) := by
  obtain ⟨before, verifying, data, rows, row, receipt, sha, rfl, hread, hrest⟩ := h
  refine ⟨t₀ ++ before, verifying, data, rows, row, receipt, sha, by simp, ?_, hrest⟩
  exact List.mem_append_right _ hread

/-- What lets a sensitive request through unseen: it got through the screen, and its category is
informational. -/
theorem declaredHarmless_of {r : Request} (hs : screen m = .ok (.inr r)) (hsens : Sensitive m)
    (hwork : r.unrelatedWork = false)
    (hcat : r.category = lit "checkpoint"
      ∨ r.category = lit "uncertainty" ∧ isTrue (r.field "machine_verifiable") = true) :
    DeclaredHarmless m := by
  have hrisk := sensitive_risk hs hsens
  obtain ⟨hread, henv, hnone⟩ := screen_ok hs
  obtain ⟨rfl, hlevel, -, hcategory, -, heffects, hvalid⟩ := readRequest_ok hread
  have hkeys := envelopeError_none henv
  have hnot : r.category ∉ operationCategories ∧ r.category ≠ lit "public_release" := by
    rcases hcat with hc | ⟨hc, -⟩
    · rw [hc]
      exact ⟨by decide, by simp⟩
    · rw [hc]
      exact ⟨by decide, by simp⟩
  have hne : r.effects ≠ [] := by
    rcases hsens with ⟨effects, heff, hne⟩ | ⟨category, hc, hmem⟩
    · unfold Python.get at heff
      rw [heffects] at heff
      rwa [Json.obj.inj heff]
    · rw [hcategory] at hc
      exact absurd (Json.str.inj hc ▸ hmem) hnot.1
  have hpublish : hasKey (lit "public_publish") r.effects = false := by
    unfold categoryError at hnone
    have hguard := (guard_eq_none.mp hnone).1
    by_contra hp
    exact hguard ⟨by simpa using hp, hnot.2⟩
  refine ⟨by rw [hlevel, hrisk], ⟨r.effects, heffects, hne, hvalid, hpublish⟩, ?_⟩
  rcases hcat with hc | ⟨hc, hmv⟩
  · left
    rw [hc] at hkeys hcategory
    exact ⟨hcategory, hkeys⟩
  · right
    rw [hc] at hkeys hcategory
    exact ⟨hcategory, hkeys, hmv, hwork⟩

/-- A sensitive request continues only when permitted, or when it is declared harmless. -/
theorem continue_permitted_or (hC : PayloadsApart C m t) (hsens : Sensitive m) {v : Verdict}
    (h : Runs (evaluateEscalation C m) t (.ok v)) (hv : v.state = .continue_) :
    Permitted C m t ∨ DeclaredHarmless m := by
  rcases evaluateEscalation_ok h with hs | ⟨r, hs, hstage⟩
  · exact absurd hv (screen_refuses hs).not_continue
  · have hrisk := sensitive_risk hs hsens
    obtain ⟨hread, henv, hcat⟩ := screen_ok hs
    obtain ⟨hm, hlevel, -, hcategory, -, heffects, hvalid⟩ := readRequest_ok hread
    have hfield : ∀ name, r.field name = get (lit name) m := fun _ => by
      unfold Request.field
      rw [hm]
    rcases hstage with hc | ⟨-, hd⟩
    · by_cases hwork : r.unrelatedWork = true
      · unfold Request.unrelatedWork at hwork
        rw [hfield] at hwork
        exact .inl (.inr (.inl hwork))
      · right
        have hwork : r.unrelatedWork = false := by simpa using hwork
        apply declaredHarmless_of hs hsens hwork
        rcases classify_l3 hrisk hc hv with hc | hc | hc
        · exact .inl hc
        · exact absurd hc (by simp [hwork])
        · exact .inr hc
    · left
      rcases decideRequest_ok hd with hr | ⟨t₁, t₂, rfl, -, hp⟩
      · unfold onRecord at hr
        rw [if_neg (by rw [hrisk]; simp)] at hr
        split at hr
        · rcases useApproval_ok hr with href | ⟨o, ho⟩
          · exact absurd hv href.not_continue
          · unfold Request.Authorized at ho
            rw [hfield, hfield, hfield] at ho
            exact .inl ⟨o, ho, ho.payload (hC o ho)⟩
        · exact absurd (Except.ok.inj (runs_ret hr).2) (by simp)
      · rcases (prepare_settled hp).2 hv with hwork | ⟨hr, package, hpackage, hres⟩
        · unfold Request.unrelatedWork at hwork
          rw [hfield] at hwork
          exact .inr (.inl hwork)
        · exact .inr (.inr ⟨r, package, hs, hr, hpackage, hres.append_left t₁⟩)

/-! ## The two kinds that get through -/

/-- Such a request passes the screen and is answered without any call. -/
theorem DeclaredHarmless.continues (h : DeclaredHarmless m) :
    ∃ v, v.state = .continue_ ∧ Runs (evaluateEscalation C m) [] (.ok v) := by
  obtain ⟨effects, heffects, hne, hvalid, hpublish⟩ := h.effects
  obtain ⟨category, hcategory, hcat⟩ : ∃ category, get (lit "category") m = .str category
      ∧ (category = lit "checkpoint" ∨ category = lit "uncertainty") := by
    rcases h.category with ⟨hc, -⟩ | ⟨hc, -⟩
    · exact ⟨_, hc, .inl rfl⟩
    · exact ⟨_, hc, .inr rfl⟩
  let r : Request := ⟨lit "L3", category, effects, m⟩
  have hread : readRequest m = .ok (.inr r) := by
    unfold readRequest
    rw [h.risk]
    dsimp only
    rw [if_neg (by decide), hcategory]
    dsimp only
    rw [if_neg, if_neg, heffects]
    · dsimp only
      rw [if_pos hvalid]
    · rcases hcat with rfl | rfl <;> decide
    · rcases hcat with rfl | rfl <;> decide
  have hlow : r.isLowRisk = false := by
    show (lit "L3" == lit "L0" || lit "L3" == lit "L1") = false
    decide
  have henv : envelopeError r = none := by
    have hkeys : keysWithin m
        (["risk_level", "category", "effects"].map lit ++ categoryFields category) = true := by
      rcases h.category with ⟨hc, hk⟩ | ⟨hc, hk, -⟩
      · rw [hcategory] at hc
        obtain rfl := Json.str.inj hc
        exact hk
      · rw [hcategory] at hc
        obtain rfl := Json.str.inj hc
        exact hk
    unfold envelopeError
    rw [hlow, if_neg (by simp), if_neg (by simp)]
    dsimp only
    unfold closedCategoryEnvelopeError
    rw [if_neg, if_pos hkeys]
    · rfl
    · rcases hcat with hc | hc <;> simp [r, hc]
  have hcaterr : categoryError r = none := by
    have hhigh : category ∉ highRiskCategories := by
      rcases hcat with rfl | rfl <;> decide
    have hrelease : category ≠ lit "public_release" := fun hc => hhigh (hc ▸ by decide)
    have hmerge : ¬(category = lit "merge" ∨ category = lit "release_readiness") := by
      rcases hcat with rfl | rfl <;> simp
    have hproduct : category ≠ lit "product_decision" := by
      rcases hcat with rfl | rfl <;> simp
    have hoperation : category ≠ lit "high_risk_operation" := by
      rcases hcat with rfl | rfl <;> simp
    unfold categoryError
    refine guard_eq_none.mpr ⟨fun hg => absurd hg.1 (by simp [r, hpublish]), ?_⟩
    refine guard_eq_none.mpr ⟨fun hg => hrelease hg.1, ?_⟩
    refine guard_eq_none.mpr ⟨fun hg => hmerge hg.1, ?_⟩
    refine guard_eq_none.mpr ⟨fun hg => hmerge hg.1, ?_⟩
    refine guard_eq_none.mpr ⟨fun hg => hproduct hg.1, ?_⟩
    refine guard_eq_none.mpr ⟨fun hg => hoperation hg.1, ?_⟩
    exact guard_eq_none.mpr ⟨fun hg => hg.2 rfl, rfl⟩
  have hscreen : screen m = .ok (.inr r) := by
    unfold screen
    rw [hread]
    dsimp only
    rw [henv]
    dsimp only
    rw [hcaterr]
  have hclassify : ∃ v, classify r = some v ∧ v.state = .continue_ := by
    unfold classify
    rcases h.category with ⟨hc, -⟩ | ⟨hc, -, hmv, -⟩
    · rw [hcategory] at hc
      rw [if_pos (Json.str.inj hc)]
      exact ⟨_, rfl, rfl⟩
    · rw [hcategory] at hc
      have hc : r.category = lit "uncertainty" := Json.str.inj hc
      rw [if_neg (by rw [hc]; simp), if_neg (by rw [hc]; simp), if_pos hc,
        if_pos (show isTrue (r.field "machine_verifiable") = true from hmv)]
      exact ⟨_, rfl, rfl⟩
  obtain ⟨v, hv, hstate⟩ := hclassify
  refine ⟨v, hstate, ?_⟩
  have hprogram : evaluateEscalation C m = .ret v := by
    unfold evaluateEscalation
    simp only [hscreen, Prog.ofExcept, Prog.bind_eq, Prog.handle_ret, hv, Prog.pure_eq]
  rw [hprogram]
  exact .ret v

/-- An answer without any call rests on no record. -/
theorem DeclaredHarmless.not_permitted (h : DeclaredHarmless m) : ¬Permitted C m [] := by
  rintro (⟨o, ho, -⟩ | hwork | ⟨r, package, -, -, -, hres⟩)
  · obtain ⟨before, verifying, consuming, after, _, _, _, ht, hread, -⟩ := ho.stored
    obtain ⟨hleft, -⟩ := List.append_eq_nil_iff.mp ht.symm
    obtain ⟨hleft, -⟩ := List.append_eq_nil_iff.mp hleft
    obtain ⟨rfl, -⟩ := List.append_eq_nil_iff.mp hleft
    exact absurd hread (by simp)
  · rcases h.category with ⟨-, hkeys⟩ | ⟨-, -, -, hno⟩
    · have hnone : lookup (lit "unrelated_work_exists") m = none := by
        by_contra hsome
        have hmem := (lookup_isSome_iff _ _).mp (Option.isSome_iff_ne_none.mpr hsome)
        exact absurd (List.all_eq_true.mp hkeys _ hmem) (by decide)
      unfold Python.get at hwork
      rw [hnone] at hwork
      exact absurd hwork (by simp [truthy])
    · rw [hno] at hwork
      exact absurd hwork (by simp)
  · obtain ⟨before, verifying, data, rows, row, receipt, sha, ht, hread, -⟩ := hres
    obtain ⟨rfl, -⟩ := List.append_eq_nil_iff.mp ht.symm
    exact absurd hread (by simp)

/-- No signed payload is compared along the empty trace. -/
theorem payloadsApart_nil : PayloadsApart C m [] := by
  intro o ho
  obtain ⟨before, verifying, consuming, after, _, _, _, ht, hread, -⟩ := ho.stored
  obtain ⟨hleft, -⟩ := List.append_eq_nil_iff.mp ht.symm
  obtain ⟨hleft, -⟩ := List.append_eq_nil_iff.mp hleft
  obtain ⟨rfl, -⟩ := List.append_eq_nil_iff.mp hleft
  exact absurd hread (by simp)

/-- **Escalation soundness.** For every sensitive request: whatever the stores, the clock, the trust
documents and the Broker answer, it continues only on a consumed approval of its exact payload, as
unrelated work, or on the owner's completed resolution, if and only if it is not declared
harmless. A run in which the digest of another signed payload is that of the request's is left out;
no such pair is known. -/
theorem continue_permitted_iff (C : Crypto) (m : Members) (hsens : Sensitive m) :
    (∀ t v, PayloadsApart C m t → Runs (evaluateEscalation C m) t (.ok v) → v.state = .continue_ →
      Permitted C m t) ↔ ¬DeclaredHarmless m := by
  constructor
  · intro hall h
    obtain ⟨v, hstate, hrun⟩ := h.continues (C := C)
    exact h.not_permitted (hall [] v payloadsApart_nil hrun hstate)
  · intro h t v hapart hrun hstate
    rcases continue_permitted_or hapart hsens hrun hstate with hp | hd
    · exact hp
    · exact absurd hd h

/-- The run of the sample approval, of which the real digests and signatures are known, continues on
the approval that it consumed: the request is sensitive and not declared harmless. -/
theorem continue_permitted_sample :
    ((∀ t v, PayloadsApart sampleCrypto sampleRequest t →
        Runs (evaluateEscalation sampleCrypto sampleRequest) t (.ok v) → v.state = .continue_ →
        Permitted sampleCrypto sampleRequest t) ↔ ¬DeclaredHarmless sampleRequest)
      ∧ ¬DeclaredHarmless sampleRequest := by
  refine ⟨continue_permitted_iff sampleCrypto sampleRequest
    (.inl ⟨[(lit "real_payment", .bool true)], rfl, by simp⟩), fun h => ?_⟩
  have hcategory : get (lit "category") sampleRequest = .str (lit "real_payment") := rfl
  rcases h.category with ⟨hc, -⟩ | ⟨hc, -⟩
  · exact absurd (Json.str.inj (hcategory.symm.trans hc)) (by simp)
  · exact absurd (Json.str.inj (hcategory.symm.trans hc)) (by simp)

/-- A checkpoint that declares a production effect. -/
def sensitiveCheckpoint : Members :=
  [(lit "risk_level", .str (lit "L3")), (lit "category", .str (lit "checkpoint")),
    (lit "effects", .obj [(lit "production", .bool true)])]

/-- It continues, and nothing permits it. -/
theorem checkpoint_continues :
    ¬∀ (C : Crypto) m, Sensitive m → ∀ t v, PayloadsApart C m t →
      Runs (evaluateEscalation C m) t (.ok v) → v.state = .continue_ → Permitted C m t := by
  intro hall
  have hharmless : DeclaredHarmless sensitiveCheckpoint := by
    refine ⟨rfl, ⟨[(lit "production", .bool true)], rfl, by simp, by decide,
      by decide⟩, .inl ⟨rfl, by decide⟩⟩
  obtain ⟨v, hstate, hrun⟩ := hharmless.continues (C := sampleCrypto)
  refine hharmless.not_permitted (hall sampleCrypto sensitiveCheckpoint ?_ [] v payloadsApart_nil
    hrun hstate)
  exact .inl ⟨[(lit "production", .bool true)], rfl, by simp⟩

end SddGov.Autonomy
