import SddGov.Autonomy.Matching
import SddGov.Autonomy.Results

/-!
# Reusing a decision

A product decision is answered from the store only where the recorded row is for
the very scope and what it rests on is still as it was: the request file of a
plain-language decision, the assumption files of a signed one, each read again
and compared by its digest. What the new request says about assumptions and
about the reopen condition is admitted and not looked at (`reuse_unchanged`).
-/

namespace SddGov.Autonomy

open SddGov.Effect SddGov.Python SddGov.Governance

variable {C : Crypto} {t : List (Event hostSig)}

/-- The result that spares the owner a question that was answered before. -/
def Verdict.Reuses (v : Verdict) : Prop :=
  v.state = .continue_ ∧ v.reason = lit "existing_decision_reused_without_duplicate_question"

/-! ## Runs of the matchers -/

/-- The body runs inside its snapshot. -/
theorem runs_withSnapshot {α : Type} {root : SnapshotRoot} {body : HostProg α} {a : α}
    (h : Runs (withSnapshot root body) t (.ok a)) :
    ∃ t₁, Runs body t₁ (.ok a) ∧ ∀ event ∈ t₁, event ∈ t := by
  obtain ⟨t₁, t₂, _, rfl, -, h⟩ := runs_bind h
  obtain ⟨t₃, t₄, y, rfl, hbody, hlast⟩ := runs_handle h
  cases y with
  | error e =>
    obtain ⟨_, _, _, -, -, hraise⟩ := runs_bind hlast
    exact absurd (runs_raise hraise).2 (by simp)
  | ok b =>
    obtain ⟨_, _, _, -, -, hret⟩ := runs_bind hlast
    obtain rfl := Except.ok.inj (runs_ret hret).2
    exact ⟨t₃, hbody, fun event he => by simp [he]⟩

theorem runs_answering {α : Type} {p : HostProg α} {a : α}
    (h : Runs (answering p) t (.ok (.ok a))) :
    Runs p t (.ok a) := by
  obtain ⟨t₁, t₂, y, rfl, hp, hlast⟩ := runs_handle h
  cases y with
  | error e => exact absurd (Except.ok.inj (runs_ret hlast).2) (by simp)
  | ok b =>
    obtain ⟨rfl, hb⟩ := runs_ret hlast
    obtain rfl := Except.ok.inj (Except.ok.inj hb)
    rw [List.append_nil]
    exact hp

theorem runs_readSnapshot {path : PyStr} {raw : Bytes}
    (h : Runs (raising (ask (.readSnapshot path))) t (.ok raw)) :
    (⟨.readSnapshot path, .ok raw⟩ : Event hostSig) ∈ t := by
  obtain ⟨r, rfl, hr⟩ := runs_ask (runs_raising h)
  obtain rfl := Except.ok.inj hr
  simp

/-- A binding gives the digest of the file that was read, and the request in it names the same
decision. -/
theorem plainRequestBinding_ok {path : PyStr} {decisionId scope decisionPackage : Json}
    {label digest : PyStr}
    (h : Runs (plainRequestBinding C path decisionId scope label decisionPackage) t (.ok digest)) :
    ∃ raw, (⟨.readSnapshot path, .ok raw⟩ : Event hostSig) ∈ t ∧ digest = C.sha256 raw
      ∧ checkPlainRequest C raw decisionId scope label = .ok ()
      ∧ checkIncoming C raw decisionPackage = .ok () := by
  obtain ⟨t₁, t₂, _, rfl, -, h⟩ := runs_bind h
  obtain ⟨t₃, t₄, raw, rfl, hread, h⟩ := runs_bind h
  obtain ⟨t₅, t₆, _, rfl, hcheck, h⟩ := runs_bind h
  obtain ⟨t₇, t₈, _, rfl, hincoming, hret⟩ := runs_bind h
  obtain ⟨t₉, hsnapshot, hsub⟩ := runs_withSnapshot hread
  have hmem := hsub _ (runs_readSnapshot hsnapshot)
  refine ⟨raw, by simp [hmem], Except.ok.inj (runs_ret hret).2, ?_, ?_⟩
  · exact (runs_ofExcept hcheck).2.symm
  · exact (runs_ofExcept hincoming).2.symm

/-- A plain-language decision whose request file, as it was read, has the recorded digest and is the
exact request of the decision. -/
def RequestUnchanged (C : Crypto) (decision : Members) (t : List (Event hostSig)) : Prop :=
  isPlainDecision decision = true ∧ ∃ path raw label, get (lit "request_path") decision = .str path
    ∧ (⟨.readSnapshot path, .ok raw⟩ : Event hostSig) ∈ t
    ∧ get (lit "request_sha256") decision = .str (C.sha256 raw)
    ∧ selectedLabel? (get (lit "basis") decision) = some label
    ∧ checkPlainRequest C raw (get (lit "decision_id") decision)
      (get (lit "scope") decision) label = .ok ()

theorem RequestUnchanged.mono {decision : Members} {t' : List (Event hostSig)}
    (h : RequestUnchanged C decision t) (hsub : ∀ event ∈ t, event ∈ t') :
    RequestUnchanged C decision t' := by
  obtain ⟨hplain, path, raw, label, hpath, hmem, hrest⟩ := h
  exact ⟨hplain, path, raw, label, hpath, hsub _ hmem, hrest⟩

/-- The scope that was asked for is the recorded one. -/
def SameScope (decision : Members) (scope : Json) : Prop :=
  ∃ s, scope = .str s ∧ get (lit "scope") decision = .str s

theorem sameScope_of {decision : Members} {scope : Json} (htext : (text? scope).isSome = true)
    (heq : pyEq (get (lit "scope") decision) scope = true) : SameScope decision scope := by
  cases scope with
  | str s => exact ⟨s, rfl, (pyEq_str_right _ _).mp heq⟩
  | _ => exact absurd htext (by simp [text?])

/-- The path and the digest are those of the row. -/
theorem recordedRequest?_some {decision : Members} {path sha256 : PyStr}
    (h : recordedRequest? decision = some (path, sha256)) :
    get (lit "request_path") decision = .str path
    ∧ get (lit "request_sha256") decision = .str sha256 := by
  unfold recordedRequest? at h
  split at h
  · next path' sha256' hpath hsha =>
    split at h
    · obtain ⟨rfl, rfl⟩ := Prod.mk.inj (Option.some.inj h)
      exact ⟨hpath, hsha⟩
    · exact absurd h (by simp)
  · exact absurd h (by simp)

/-- The request file of a plain-language decision as it was read: its bytes have the recorded
digest, are the exact request of the decision, and hold the package that came in. -/
structure RequestRead (C : Crypto) (decision : Members) (incoming : Json) (path label : PyStr)
    (raw : Bytes)
    (t : List (Event hostSig)) : Prop where
  recorded : get (lit "request_path") decision = .str path
  read : (⟨.readSnapshot path, .ok raw⟩ : Event hostSig) ∈ t
  digest : get (lit "request_sha256") decision = .str (C.sha256 raw)
  chosen : selectedLabel? (get (lit "basis") decision) = some label
  request : checkPlainRequest C raw (get (lit "decision_id") decision)
    (get (lit "scope") decision) label = .ok ()
  incoming : checkIncoming C raw incoming = .ok ()

/-- A plain decision that matches was read beside the profile and its request file, in this
order. -/
theorem plainL2ApprovalMatches_run {decision : Members} {scope incoming : Json}
    (h : Runs (plainL2ApprovalMatches C decision scope incoming) t (.ok true)) :
    isPlainRow decision scope = true ∧ ∃ t₁ t₂, t = t₁ ++ t₂
      ∧ Runs (noneOnValueError (checkPlainProfile decision)) t₁ (.ok (some true))
      ∧ ∃ path label raw, RequestRead C decision incoming path label raw t := by
  unfold plainL2ApprovalMatches at h
  split at h
  · exact absurd (Except.ok.inj (runs_ret h).2) (by simp)
  · next hrow =>
    refine ⟨by simpa using hrow, ?_⟩
    obtain ⟨t₁, t₂, profiled, rfl, hprofiled, h⟩ := runs_bind h
    split at h
    · exact absurd (Except.ok.inj (runs_ret h).2) (by simp)
    · next hteam =>
      obtain rfl := not_not.mp hteam
      refine ⟨t₁, t₂, rfl, hprofiled, ?_⟩
      split at h
      · next label path sha256 hlabel hrequest =>
        obtain ⟨hpath, hsha⟩ := recordedRequest?_some hrequest
        obtain ⟨t₃, t₄, y, rfl, hbinding, hlast⟩ := runs_handle h
        cases y with
        | error e =>
          exfalso
          dsimp only [Prog.resume] at hlast
          split at hlast
          · exact absurd (Except.ok.inj (runs_ret hlast).2) (by simp)
          · exact absurd (runs_raise hlast).2 (by simp)
        | ok digest =>
          obtain ⟨raw, hmem, rfl, hcheck, hincoming⟩ := plainRequestBinding_ok hbinding
          have heq : C.sha256 raw = sha256 := by
            simpa using (Except.ok.inj (runs_ret hlast).2).symm
          exact ⟨path, label, raw, hpath, by
            simp [hmem], by rw [hsha, heq], hlabel, hcheck, hincoming⟩
      · exact absurd (Except.ok.inj (runs_ret h).2) (by simp)

theorem isPlainRow_scope {decision : Members} {scope : Json}
    (h : isPlainRow decision scope = true) :
    isPlainDecision decision = true ∧ SameScope decision scope := by
  unfold isPlainRow at h
  simp only [Bool.and_eq_true] at h
  obtain ⟨⟨⟨⟨⟨⟨⟨⟨-, -⟩, -⟩, hplain⟩, -⟩, -⟩, -⟩, htext⟩, hscope⟩ := h
  exact ⟨hplain, sameScope_of htext hscope⟩

theorem plainL2ApprovalMatches_true {decision : Members} {scope decisionPackage : Json}
    (h : Runs (plainL2ApprovalMatches C decision scope decisionPackage) t (.ok true)) :
    SameScope decision scope ∧ RequestUnchanged C decision t := by
  obtain ⟨hrow, t₁, t₂, rfl, -, path, label, raw, hread⟩ := plainL2ApprovalMatches_run h
  obtain ⟨hplain, hscope⟩ := isPlainRow_scope hrow
  exact ⟨hscope, hplain, path, raw, label, hread.recorded, hread.read, hread.digest, hread.chosen,
    hread.request⟩

/-! ## Signed decisions -/

/-- The assumptions as their digest is taken. -/
def normalizedAssumptions (rows : List Json) : List Json :=
  (rows.filterMap assumption?).map fun a => .obj [(lit "path", .str a.1), (lit "sha256", .str a.2)]

/-- Each file that an assumption names was read, and has the digest it names. -/
def FilesUnchanged (C : Crypto) (rows : List Json) (t : List (Event hostSig)) : Prop :=
  ∀ row ∈ rows, ∃ path raw, assumption? row = some (path, C.sha256 raw)
    ∧ (⟨.readSnapshot path, .ok raw⟩ : Event hostSig) ∈ t

theorem FilesUnchanged.mono {rows : List Json} {t' : List (Event hostSig)}
    (h : FilesUnchanged C rows t) (hsub : ∀ event ∈ t, event ∈ t') : FilesUnchanged C rows t' := by
  intro row hrow
  obtain ⟨path, raw, hassumption, hmem⟩ := h row hrow
  exact ⟨path, raw, hassumption, hsub _ hmem⟩

/-- Assumptions that verify are files with the digests they were signed with. The induction is on
the rows, with the paths seen so far. -/
theorem verifyAssumptions_ok {index : Nat} {seen : List PyStr} {rows normalized : List Json}
    (h : Runs (verifyAssumptions C index seen rows) t (.ok normalized)) :
    FilesUnchanged C rows t ∧ normalized = normalizedAssumptions rows := by
  induction rows generalizing index seen normalized t with
  | nil =>
    obtain rfl := Except.ok.inj (runs_ret h).2
    exact ⟨fun _ hrow => absurd hrow (by simp), rfl⟩
  | cons row rest ih =>
    rw [verifyAssumptions] at h
    split at h
    · exact absurd (runs_raise h).2 (by simp)
    · next path sha256 hrow =>
      split at h
      · exact absurd (runs_raise h).2 (by simp)
      · obtain ⟨t₁, t₂, raw, rfl, hread, h⟩ := runs_bind h
        obtain ⟨t₃, t₄, _, rfl, hdigest, h⟩ := runs_bind h
        obtain ⟨t₅, t₆, others, rfl, hothers, hret⟩ := runs_bind h
        obtain rfl := Except.ok.inj (runs_ret hret).2
        obtain ⟨hfiles, rfl⟩ := ih hothers
        have heq : C.sha256 raw = sha256 := by
          simpa using require_ok.mp (runs_ofExcept hdigest).2.symm
        have hmem := runs_readSnapshot hread
        refine ⟨List.forall_mem_cons.mpr ⟨⟨path, raw, heq ▸ hrow, by simp [hmem]⟩, ?_⟩, ?_⟩
        · exact FilesUnchanged.mono hfiles fun event he => by simp [he]
        · simp [normalizedAssumptions, hrow]

/-- A signed decision whose assumption files, as they were read, have the digests that were signed
and recorded. -/
def AssumptionsUnchanged (C : Crypto) (decision : Members) (t : List (Event hostSig)) : Prop :=
  isPlainDecision decision = false ∧ ∃ rows digest, rows ≠ []
    ∧ pyEq (get (lit "assumptions") decision) (.arr rows) = true ∧ FilesUnchanged C rows t
    ∧ assumptionsDigest C (normalizedAssumptions rows) = .ok digest
    ∧ get (lit "assumptions_sha256") decision = .str digest

theorem AssumptionsUnchanged.mono {decision : Members} {t' : List (Event hostSig)}
    (h : AssumptionsUnchanged C decision t) (hsub : ∀ event ∈ t, event ∈ t') :
    AssumptionsUnchanged C decision t' := by
  obtain ⟨hsigned, rows, digest, hne, hrows, hfiles, hrest⟩ := h
  exact ⟨hsigned, rows, digest, hne, hrows, hfiles.mono hsub, hrest⟩

/-- The digest is one of assumptions whose files are unchanged. -/
theorem verifiedAssumptionsDigest_ok {assumptions : Json} {digest : PyStr}
    (h : Runs (verifiedAssumptionsDigest C assumptions) t (.ok digest)) :
    ∃ rows, assumptions = .arr rows ∧ rows ≠ [] ∧ FilesUnchanged C rows t
      ∧ assumptionsDigest C (normalizedAssumptions rows) = .ok digest := by
  unfold verifiedAssumptionsDigest at h
  split at h
  · next row rest =>
    obtain ⟨t₁, hbody, hsub⟩ := runs_withSnapshot h
    obtain ⟨t₂, t₃, normalized, rfl, hverify, hdigest⟩ := runs_bind hbody
    obtain ⟨hfiles, rfl⟩ := verifyAssumptions_ok hverify
    refine ⟨row :: rest, rfl, by simp, ?_, (runs_ofExcept hdigest).2.symm⟩
    exact hfiles.mono fun event he => hsub _ (List.mem_append_left t₃ he)
  · exact absurd (runs_raise h).2 (by simp)

/-- A verified envelope has assumptions, and their files are unchanged. -/
theorem verifyProductEnvelope_assumptions {envelope : Json} {receipt : ProductReceipt}
    {receiptSha256 : PyStr} (h : Runs (verifyProductEnvelope C envelope) t
      (.ok (receipt, receiptSha256))) :
    ∃ rows, receipt.assumptions = .arr rows ∧ rows ≠ [] ∧ FilesUnchanged C rows t
      ∧ assumptionsDigest C (normalizedAssumptions rows) = .ok receipt.assumptionsSha256 := by
  obtain ⟨t₁, t₂, ⟨receipt', signature⟩, rfl, -, h⟩ := runs_bind h
  dsimp only [Prog.bind_eq] at h
  obtain ⟨t₃, t₄, digest, rfl, hdigest, h⟩ := runs_bind h
  obtain ⟨t₅, t₆, _, rfl, hsame, h⟩ := runs_bind h
  obtain ⟨_, _, ⟨issuedAt, expiresAt⟩, -, -, h⟩ := runs_bind h
  obtain ⟨_, _, _, -, -, h⟩ := runs_bind h
  obtain ⟨_, _, _, -, -, h⟩ := runs_bind h
  obtain ⟨_, _, _, -, -, h⟩ := runs_bind h
  obtain ⟨_, _, _, -, -, h⟩ := runs_bind h
  obtain ⟨_, _, _, -, -, hret⟩ := runs_bind h
  obtain ⟨rfl, -⟩ := Prod.mk.inj (Except.ok.inj (runs_ret hret).2)
  obtain ⟨rows, hrows, hne, hfiles, hnormalized⟩ := verifiedAssumptionsDigest_ok hdigest
  have heq : digest = receipt.assumptionsSha256 := by
    simpa using require_ok.mp (runs_ofExcept hsame).2.symm
  refine ⟨rows, hrows, hne, ?_, heq ▸ hnormalized⟩
  exact hfiles.mono fun event he => by simp [he]

/-- A decision that matches has the same scope, and its request or its assumptions are unchanged. -/
theorem l2ApprovalMatches_true {decision : Members} {scope : Json}
    (h : Runs (l2ApprovalMatches C decision scope) t (.ok true)) :
    SameScope decision scope ∧ (RequestUnchanged C decision t
      ∨ AssumptionsUnchanged C decision t) := by
  unfold l2ApprovalMatches at h
  split at h
  · obtain ⟨hscope, hrequest⟩ := plainL2ApprovalMatches_true h
    exact ⟨hscope, .inl hrequest⟩
  · next hsigned =>
    obtain ⟨t₁, t₂, verified, rfl, hverify, h⟩ := runs_bind h
    cases verified with
    | none => exact absurd (Except.ok.inj (runs_ret h).2) (by simp)
    | some verified =>
      obtain ⟨receipt, receiptSha256⟩ := verified
      have hmatch := (Except.ok.inj (runs_ret h).2).symm
      unfold l2ApprovalMatchesVerified at hmatch
      simp only [Bool.and_eq_true, List.all_eq_true] at hmatch
      obtain ⟨⟨⟨-, htext⟩, hfields⟩, hscope⟩ := hmatch
      have hrowScope := (pyEq_str_right _ _).mp
        (hfields (lit "scope", .str receipt.scope) (by simp [signedFields]))
      have hrowDigest := (pyEq_str_right _ _).mp
        (hfields (lit "assumptions_sha256", .str receipt.assumptionsSha256)
          (by simp [signedFields]))
      have hrowAssumptions := hfields (lit "assumptions", receipt.assumptions)
        (by simp [signedFields])
      obtain ⟨rows, hrows, hne, hfiles, hdigest⟩ :=
        verifyProductEnvelope_assumptions (runs_noneOnValueError hverify)
      refine ⟨sameScope_of htext (by rw [hrowScope]; exact hscope),
        .inr ⟨by simpa using hsigned, rows, _, hne,
        by rwa [hrows] at hrowAssumptions, ?_, hdigest, hrowDigest⟩⟩
      exact hfiles.mono fun event he => by simp [he]

/-! ## The stage a reused decision comes from -/

/-- A request for an L2 product decision. -/
structure ProductRequest (m : Members) (r : Request) : Prop where
  screened : screen m = .ok (.inr r)
  members : r.members = m
  risk : r.risk = lit "L2"
  category : r.category = lit "product_decision"

/-- What is screened under this category is a product request. -/
theorem productRequest_of {m : Members} {r : Request} (hs : screen m = .ok (.inr r))
    (hcategory : get (lit "category") m = .str (lit "product_decision")) : ProductRequest m r := by
  obtain ⟨hread, -, hcat⟩ := screen_ok hs
  obtain ⟨hmembers, -, -, hcategory', -⟩ := readRequest_ok hread
  have hproduct : r.category = lit "product_decision" :=
    Json.str.inj (hcategory'.symm.trans hcategory)
  refine ⟨hs, hmembers, ?_, hproduct⟩
  by_contra hrisk
  unfold categoryError at hcat
  obtain ⟨-, hcat⟩ := guard_eq_none.mp hcat
  obtain ⟨-, hcat⟩ := guard_eq_none.mp hcat
  obtain ⟨-, hcat⟩ := guard_eq_none.mp hcat
  obtain ⟨-, hcat⟩ := guard_eq_none.mp hcat
  obtain ⟨hproduct', -⟩ := guard_eq_none.mp hcat
  exact hproduct' ⟨hproduct, hrisk⟩

namespace ProductRequest

variable {m : Members} {r : Request}

theorem not_low (h : ProductRequest m r) : r.isLowRisk = false := by
  unfold Request.isLowRisk
  rw [h.risk]
  decide

theorem not_human (h : ProductRequest m r) : r.isHuman = false := by
  unfold Request.isHuman
  rw [h.category]
  decide

theorem classify_none (h : ProductRequest m r) : classify r = none := by
  have hcheckpoint : lit "product_decision" ≠ lit "checkpoint" := by decide
  have hmismatch : lit "product_decision" ≠ lit "integrity_mismatch" := by decide
  have huncertain : lit "product_decision" ≠ lit "uncertainty" := by decide
  unfold classify
  rw [h.not_low, h.category, if_neg hcheckpoint, if_neg hmismatch, if_neg huncertain]
  simp

theorem onRecord_eq (h : ProductRequest m r) : onRecord C r = reuseDecision r := by
  unfold onRecord
  rw [if_pos ⟨h.risk, h.category⟩]

end ProductRequest

/-- Preparing a question is no reuse. -/
theorem prepare_not_reuses {m : Members} {r : Request} (hr : ProductRequest m r) {v : Verdict}
    (h : Runs (prepare C r) t (.ok v)) : ¬v.Reuses := by
  intro hv
  obtain ⟨t₁, t₂, package, rfl, hread, hlast⟩ := runs_bind h
  cases package with
  | inl w =>
    obtain rfl := Except.ok.inj (runs_ret hlast).2
    exact (readPackage_refuses (runs_ofExcept hread).2.symm).not_continue hv.1
  | inr package =>
    dsimp only at hlast
    rw [hr.not_human] at hlast
    split at hlast
    · next hfalse => exact absurd hfalse (by simp)
    · split at hlast
      · obtain rfl := Except.ok.inj (runs_ret hlast).2
        have hreason : lit "human_decision_blocks_only_dependent_work"
            ≠ lit "existing_decision_reused_without_duplicate_question" := by decide
        exact absurd hv.2 hreason
      · obtain rfl := Except.ok.inj (runs_ret hlast).2
        exact absurd hv.1 (by simp [actionRequiredVerdict])

/-- A verdict that reuses comes from the stage that looks the decision up. -/
theorem reuses_stage {m : Members} {v : Verdict} (h : Runs (evaluateEscalation C m) t (.ok v))
    (hcategory : get (lit "category") m = .str (lit "product_decision")) (hv : v.Reuses) :
    ∃ r, ProductRequest m r ∧ Runs (reuseDecision r) t (.ok (some v)) := by
  rcases evaluateEscalation_ok h with hs | ⟨r, hs, hc | ⟨-, hd⟩⟩
  · exact absurd hv.1 (screen_refuses hs).not_continue
  · exact absurd ((productRequest_of hs hcategory).classify_none.symm.trans hc) (by simp)
  · have hr := productRequest_of hs hcategory
    refine ⟨r, hr, ?_⟩
    rcases decideRequest_ok hd with hrecord | ⟨t₁, t₂, rfl, -, hp⟩
    · rwa [hr.onRecord_eq] at hrecord
    · exact absurd hv (prepare_not_reuses hr hp)

/-- The row of a decision in the store that was read. -/
def StoredDecision (decisionId : Json) (row : Members) (t : List (Event hostSig)) : Prop :=
  ∃ data store, (⟨.readJson .decisions, .ok data⟩ : Event hostSig) ∈ t
    ∧ checkStore (data.getD noDecisions) = .ok store ∧ row ∈ store.decisions
    ∧ hasDecisionId decisionId row = true

/-- A decision that is found is stored. -/
theorem findDecision_some {decisionId : Json} {row : Members}
    (h : Runs (findDecision decisionId) t (.ok (some row))) : StoredDecision decisionId row t := by
  unfold findDecision at h
  split at h
  · exact absurd (Except.ok.inj (runs_ret h).2) (by simp)
  · obtain ⟨t₁, t₂, store, rfl, hstore, hret⟩ := runs_bind h
    obtain ⟨t₃, t₄, data, rfl, hread, hcheck⟩ := runs_bind hstore
    obtain ⟨data, rfl, rfl⟩ := runs_readJson hread
    have hfind := (Except.ok.inj (runs_ret hret).2).symm
    refine ⟨data, store, by
      simp, (runs_ofExcept hcheck).2.symm, List.mem_of_find?_eq_some hfind, ?_⟩
    exact List.find?_some hfind

/-- A reused decision was found in the store, and one of the matchers accepted it. -/
theorem reuseDecision_some {r : Request} {v : Verdict}
    (h : Runs (reuseDecision r) t (.ok (some v))) :
    ∃ row, StoredDecision (r.field "decision_id") row t
      ∧ ((⟨.plainDecisionMatches (.obj row) (r.field "decision_scope") (r.field "decision_package"),
            .ok true⟩ : Event hostSig) ∈ t
        ∨ (⟨.decisionMatches (.obj row) (r.field "decision_scope"), .ok true⟩ : Event hostSig)
          ∈ t) := by
  obtain ⟨t₁, t₂, recorded, rfl, hfind, h⟩ := runs_bind h
  cases recorded with
  | none => exact absurd (Except.ok.inj (runs_ret h).2) (by simp)
  | some row =>
    obtain ⟨t₃, t₄, plain, rfl, hplain, h⟩ := runs_bind h
    obtain ⟨t₅, t₆, isMatch, rfl, hmatch, hret⟩ := runs_bind h
    obtain ⟨data, store, hread, hstore⟩ := findDecision_some hfind
    refine ⟨row, ⟨data, store, by simp [hread], hstore⟩, ?_⟩
    cases isMatch with
    | false => exact absurd (Except.ok.inj (runs_ret hret).2) (by simp)
    | true =>
      cases plain with
      | true =>
        unfold plainMatches at hplain
        split at hplain
        · obtain ⟨answer, rfl, hanswer⟩ := runs_ask (runs_raising hplain)
          obtain rfl := Except.ok.inj hanswer
          exact .inl (by simp)
        · exact absurd (Except.ok.inj (runs_ret hplain).2) (by simp)
      | false =>
        obtain ⟨answer, rfl, hanswer⟩ := runs_ask (runs_raising hmatch)
        obtain rfl := Except.ok.inj hanswer
        exact .inr (by simp)

/-! ## What is not looked at -/

/-- The fields of a request that say how things stand. -/
def standingFields : List String := ["assumptions_sha256", "reopen_condition_triggered"]

/-- Setting a member with an allowed name keeps the names within. -/
theorem keysWithin_setMember {m : Members} {names : List PyStr} {key : PyStr} {value : Json}
    (h : keysWithin m names = true) (hkey : names.contains key = true) :
    keysWithin (setMember key value m) names = true := by
  induction m with
  | nil => simpa [setMember, keysWithin, keys] using hkey
  | cons kv m ih =>
    obtain ⟨k, w⟩ := kv
    have hcons : names.contains k = true ∧ keysWithin m names = true := by
      simpa [keysWithin, keys] using h
    rw [setMember]
    split
    · simpa [keysWithin, keys] using hcons
    · have hrest := ih hcons.2
      simp only [keysWithin, keys, List.map_cons, List.all_cons, Bool.and_eq_true] at hrest ⊢
      exact ⟨hcons.1, hrest⟩

/-- The request with such a field set is read and classified as before. -/
theorem ProductRequest.setMember {m : Members} {r : Request} (hr : ProductRequest m r) {f : String}
    (hf : f ∈ standingFields) (value : Json) :
    ProductRequest (setMember (lit f) value m)
    { r with members := Python.setMember (lit f) value m } := by
  have hne : ∀ other ∈ ["risk_level", "category", "effects"], lit other ≠ lit f := by
    simp only [standingFields, List.mem_cons, List.not_mem_nil, or_false] at hf
    rcases hf with rfl | rfl <;> decide
  have hallowed : (["risk_level", "category", "effects"].map lit
      ++ categoryFields (lit "product_decision")).contains (lit f) = true := by
    simp only [standingFields, List.mem_cons, List.not_mem_nil, or_false] at hf
    rcases hf with rfl | rfl <;> decide
  obtain ⟨hread, henvelope, hcategory⟩ := screen_ok hr.screened
  refine ⟨?_, rfl, hr.risk, hr.category⟩
  have hread' : readRequest (Python.setMember (lit f) value m)
      = .ok (.inr { r with members := Python.setMember (lit f) value m }) := by
    obtain ⟨-, hrisk, hlevel, hcat, hknown, heffects, hvalid⟩ := readRequest_ok hread
    have hnonempty : r.category ≠ [] := by
      rw [hr.category]
      decide
    unfold readRequest
    rw [get_setMember_ne value m (hne _ (by simp)), get_setMember_ne value m (hne _ (by simp)),
      lookup_setMember_ne value m (hne _ (by simp)), hrisk, hcat, heffects]
    dsimp only
    rw [if_neg (not_not.mpr hlevel), if_neg hnonempty, if_neg (not_not.mpr hknown), if_pos hvalid]
  have henvelope' : envelopeError { r with members := Python.setMember (lit f) value m }
    = none := by
    have hlow' : ({ r with members := Python.setMember (lit f) value m } : Request).isLowRisk
      = false :=
      hr.not_low
    have huat : lit "product_decision" ≠ lit "necessary_uat" := by decide
    unfold envelopeError at henvelope ⊢
    rw [hr.not_low] at henvelope
    rw [hlow']
    simp only [Bool.false_eq_true, false_and, if_false, Option.map_eq_none_iff] at henvelope ⊢
    unfold closedCategoryEnvelopeError at henvelope ⊢
    rw [hr.category, hr.members, if_neg fun h => huat h.1] at henvelope
    rw [hr.category, if_neg fun h => huat h.1]
    split at henvelope
    · next hwithin => rw [if_pos (keysWithin_setMember hwithin hallowed)]
    · exact absurd henvelope (by simp)
  unfold screen
  rw [hread']
  dsimp only
  rw [henvelope']
  dsimp only
  have hcategory' : categoryError { r with members := Python.setMember (lit f) value m }
    = none := hcategory
  rw [hcategory']

/-- The decision to reuse looks at none of the standing fields. -/
theorem reuseDecision_setMember {m : Members} {r : Request} (hr : ProductRequest m r) {f : String}
    (hf : f ∈ standingFields) (value : Json) :
    reuseDecision { r with members := setMember (lit f) value m } = reuseDecision r := by
  have hfield : ∀ other ∈ ["decision_id", "decision_scope", "decision_package"],
      get (lit other) (setMember (lit f) value m) = get (lit other) m
        ∧ hasKey (lit other) (setMember (lit f) value m) = hasKey (lit other) m := by
    intro other hother
    have hne : lit other ≠ lit f := by
      simp only [standingFields, List.mem_cons, List.not_mem_nil, or_false] at hf hother
      rcases hf with rfl | rfl <;> rcases hother with rfl | rfl | rfl <;> decide
    refine ⟨get_setMember_ne value m hne, ?_⟩
    unfold hasKey
    rw [lookup_setMember_ne value m hne]
  have hid := (hfield "decision_id" (by simp)).1
  have hscope := (hfield "decision_scope" (by simp)).1
  have hpackage := hfield "decision_package" (by simp)
  obtain ⟨risk, category, effects, members⟩ := r
  obtain rfl : members = m := hr.members
  have hplain : ∀ row, plainMatches ⟨risk, category, effects,
    Python.setMember (lit f) value members⟩ row
      = plainMatches ⟨risk, category, effects, members⟩ row := by
    intro row
    have hcall {s s' p p' : Json} (hs : s = s') (hp : p = p') :
        raising (ask (.plainDecisionMatches (.obj row) s p))
          = raising (ask (.plainDecisionMatches (.obj row) s' p')) := by
      subst hs hp
      rfl
    unfold plainMatches
    split
    · exact hcall hscope hpackage.1
    · rfl
  have hrecorded : ∀ row plain,
      recordedMatches ⟨risk, category, effects, Python.setMember (lit f) value members⟩ row plain
        = recordedMatches ⟨risk, category, effects, members⟩ row plain := by
    intro row plain
    have hcall {s s' : Json} (hs : s = s') :
        raising (ask (.decisionMatches (.obj row) s))
          = raising (ask (.decisionMatches (.obj row) s')) := by
      subst hs
      rfl
    unfold recordedMatches
    split
    · rfl
    · exact hcall hscope
  unfold reuseDecision reusedVerdict Request.field
  simp only [hid, hpackage, hplain, hrecorded]

/-- **Such a field has no influence** on a decision that is reused. -/
theorem reuses_setMember {m : Members} {v : Verdict} (h : Runs (evaluateReuse C m) t (.ok v))
    (hcategory : get (lit "category") m = .str (lit "product_decision")) (hv : v.Reuses)
    {f : String}
    (hf : f ∈ standingFields) (value : Json) :
    Runs (evaluateReuse C (setMember (lit f) value m)) t (.ok v) := by
  obtain ⟨t', hexpands, hrun⟩ := runs_expand_iff.mp h
  obtain ⟨r, hr, hreuse⟩ := reuses_stage hrun hcategory hv
  have hr' := hr.setMember hf value
  refine runs_expand_iff.mpr ⟨t', hexpands, ?_⟩
  have hdecide : Runs (decideRequest C { r with members := setMember (lit f) value m }) t'
    (.ok v) := by
    have hlast : Runs (onRecord C { r with members := setMember (lit f) value m }) t'
      (.ok (some v)) := by
      rw [hr'.onRecord_eq, reuseDecision_setMember hr hf value]
      exact hreuse
    unfold decideRequest
    rw [← List.append_nil t']
    exact runs_handle_ok hlast (.ret v)
  unfold evaluateEscalation
  rw [hr'.screened]
  dsimp only [Prog.bind_eq, Prog.ofExcept, Prog.handle_ret]
  rw [hr'.classify_none]
  exact hdecide

/-! ## The conditions of a reuse -/

/-- **A decision is reused only where it still holds**: the row of the store with the id of the
request has the very scope of the request, and what it was recorded for is unchanged. The fields in
which the request itself speaks of the assumptions and of the reopen condition have no influence. -/
theorem reuse_unchanged {m : Members} {v : Verdict} (h : Runs (evaluateReuse C m) t (.ok v))
    (hcategory : get (lit "category") m = .str (lit "product_decision")) (hv : v.Reuses) :
    (∃ row, StoredDecision (get (lit "decision_id") m) row t
      ∧ SameScope row (get (lit "decision_scope") m)
      ∧ (RequestUnchanged C row t ∨ AssumptionsUnchanged C row t))
    ∧ ∀ f ∈ standingFields, ∀ value, Runs (evaluateReuse C (setMember (lit f) value m)) t
      (.ok v) := by
  refine ⟨?_, fun f hf value => reuses_setMember h hcategory hv hf value⟩
  obtain ⟨t', hexpands, hrun⟩ := runs_expand_iff.mp h
  obtain ⟨r, hr, hreuse⟩ := reuses_stage hrun hcategory hv
  obtain ⟨row, ⟨data, store, hread, hstore⟩, hmatched⟩ := reuseDecision_some hreuse
  obtain rfl := hr.members
  refine ⟨row, ⟨data, store, hexpands.mem hread rfl, hstore⟩, ?_⟩
  rcases hmatched with hmatched | hmatched
  · obtain ⟨t₁, hanswer, hsub⟩ := hexpands.run_of_mem hmatched rfl
    obtain ⟨hscope, hrequest⟩ := plainL2ApprovalMatches_true (runs_answering hanswer)
    exact ⟨hscope, .inl (hrequest.mono hsub)⟩
  · obtain ⟨t₁, hanswer, hsub⟩ := hexpands.run_of_mem hmatched rfl
    obtain ⟨hscope, hunchanged⟩ := l2ApprovalMatches_true (runs_answering hanswer)
    exact ⟨hscope, hunchanged.imp (·.mono hsub) (·.mono hsub)⟩

/-! ## A reuse against the request's own word -/

/-- The card of the sample. -/
def plainSamplePackage : Members :=
  [(lit "decision_id", .str (lit "DEC-1")), (lit "risk_level", .str (lit "L2")),
    (lit "why_human_input_is_required", .str (lit "pricing")),
    (lit "what_agent_already_verified", .arr [.str (lit "costs")]),
    (lit "options",
      .arr [.obj [(lit "label", .str (lit "A")), (lit "description", .str (lit "monthly"))],
      .obj [(lit "label", .str (lit "B")), (lit "description", .str (lit "yearly"))]]),
    (lit "recommended", .str (lit "A")), (lit "why", .str (lit "simple")),
    (lit "impact_if_no_decision", .str (lit "delay")),
      (lit "scope_of_approval", .str (lit "billing"))]

/-- The request in its file. -/
def plainSampleRequest : Members :=
  [(lit "risk_level", .str (lit "L2")), (lit "category", .str (lit "product_decision")),
    (lit "effects", .obj []), (lit "decision_id", .str (lit "DEC-1")),
    (lit "decision_scope", .str (lit "billing")), (lit "decision_package", .obj plainSamplePackage)]

/-- The bytes of its file. -/
def plainSampleRaw : Bytes := (canonicalBytes (.obj plainSampleRequest)).getD []

/-- The primitives on these bytes. -/
def requestCrypto : Crypto :=
  .ofTables
    [(some plainSampleRaw, 0x023dfdf0e02d8174a1ee077febbbb1e8a1b5a5e6afeff2b56f9cd77213745350)] []

/-- The row of the decision. -/
def plainSampleRow : Members :=
  plainRow ⟨.str (lit "DEC-1"), .str (lit "monthly"), .str (lit "billing"),
      .str (lit "owner_explicit_choice:A"), .str (lit "scope_or_assumptions_change"),
        lit "request.json"⟩
    (lit "team-standard") (requestCrypto.sha256 plainSampleRaw) ⟨63000000000000000, sampleMicros_lt⟩

/-- The repository in which it was recorded. -/
def plainSampleHost : (o : HostOp) → hostSig.Resp o
  | .readJson .decisions => .ok (some (.obj [(lit "schema_version", .str (lit "1.0")),
      (lit "decisions", .arr [.obj plainSampleRow])]))
  | .readJson .project => .ok (some (.obj [(lit "profile", .str (lit "team-standard"))]))
  | .readSnapshot _ => .ok plainSampleRaw
  | o => CalmHost.answer ⟨⟨63000000000000000, sampleMicros_lt⟩, fun _ =>
      .ok none, fun _ => [], []⟩ o

/-- A request that says its assumptions have changed and the decision is to be opened again. -/
def reopenedRequest : Members :=
  [(lit "risk_level", .str (lit "L2")), (lit "category", .str (lit "product_decision")),
    (lit "effects", .obj []), (lit "decision_id", .str (lit "DEC-1")),
    (lit "decision_scope", .str (lit "billing")), (lit "assumptions_sha256", .str (lit "changed")),
    (lit "reopen_condition_triggered", .bool true)]

/-- The outcome is a reuse. -/
def isReuse : Outcome Exn Verdict → Bool
  | .ok v => decide (v.state = .continue_)
      && v.reason == lit "existing_decision_reused_without_duplicate_question"
  | .error _ => false

theorem reopenedRequest_reused :
    ∃ t v, Runs (evaluateReuse requestCrypto reopenedRequest) t (.ok v) ∧ v.Reuses := by
  have hrun := runs_answered plainSampleHost (evaluateReuse requestCrypto reopenedRequest)
  have hreuse : isReuse ((evaluateReuse requestCrypto reopenedRequest).answered plainSampleHost).2
    = true := by
    decide +kernel
  generalize (evaluateReuse requestCrypto reopenedRequest).answered plainSampleHost = run
    at hrun hreuse
  obtain ⟨t, x⟩ := run
  cases x with
  | error e => exact absurd hreuse (by simp [isReuse])
  | ok v =>
    simp only [isReuse, Bool.and_eq_true, decide_eq_true_eq, beq_iff_eq] at hreuse
    exact ⟨t, v, hrun, hreuse⟩

theorem reuse_unchanged_sample :
    ∃ t v, v.Reuses
      ∧ (∃ row, StoredDecision (get (lit "decision_id") reopenedRequest) row t
        ∧ SameScope row (get (lit "decision_scope") reopenedRequest)
        ∧ (RequestUnchanged requestCrypto row t ∨ AssumptionsUnchanged requestCrypto row t))
      ∧ ∀ f ∈ standingFields, ∀ value,
        Runs (evaluateReuse requestCrypto (setMember (lit f) value reopenedRequest)) t (.ok v) := by
  obtain ⟨t, v, hrun, hv⟩ := reopenedRequest_reused
  obtain ⟨hrow, hfields⟩ := reuse_unchanged hrun (by decide) hv
  exact ⟨t, v, hv, hrow, hfields⟩

/-- The decision is reused although the request says that it is to be opened again. -/
theorem reopened_decision_reused :
    ¬∀ (C : Crypto) (m : Members) (t : List (Event hostSig)) (v : Verdict),
      get (lit "category") m = .str (lit "product_decision") →
      Runs (evaluateReuse C m) t (.ok v) → v.Reuses →
      ∃ row, StoredDecision (get (lit "decision_id") m) row t
      ∧ SameScope row (get (lit "decision_scope") m)
        ∧ (hasKey (lit "assumptions_sha256") m = true →
          pyEq (get (lit "assumptions_sha256") m) (get (lit "assumptions_sha256") row) = true)
        ∧ get (lit "reopen_condition_triggered") m ≠ .bool true := by
  intro h
  obtain ⟨t, v, hrun, hv⟩ := reopenedRequest_reused
  obtain ⟨row, -, -, -, hreopen⟩ := h requestCrypto reopenedRequest t v (by decide) hrun hv
  exact hreopen (by decide)

end SddGov.Autonomy
