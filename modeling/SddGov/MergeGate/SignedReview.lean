import SddGov.MergeGate.SignReview

/-!
# A signed review can be used

Signer and verifier check the builder, the reviewer, the path and the window with
rules of their own. Stage by stage, `_verify_review_receipt` on what was signed comes
down to four questions (`accepted_iff`). So a receipt is accepted from the moment of
signing until it expires just where the gate names its builder, the path has no
backslash and lies under `.sddgov/reviews` as it is spelled, and the validity outlives
the second that the clock was cut to (`signed_usable_iff`).
-/

namespace SddGov.MergeGate

open SddGov.Python SddGov.Git SddGov.TrustedRunner

/-! ## The verifier on what was signed -/

/-- Under `.sddgov/reviews` as it is spelled. -/
def isUnderReviews (path : PyStr) : Bool := [lit ".sddgov", lit "reviews"].isPrefixOf
    (Autonomy.pathParts path)

/-- The verifier finds the receipt where it was written. -/
def verifierAt (H : SignHost) (s : Signed) (t : Instant) (trust : Members) : ReviewHost where
  paths := H.paths
  isUnderReviews := isUnderReviews
  loadReceipt path := if path = s.path then .ok s.envelope else
    .error (valueError "invalid protected-file review receipt")
  now := t
  trustedReviewers _ := .ok trust

/-- `_verify_review_receipt` accepts the receipt at this moment. -/
def Signed.Accepted (C : Crypto) (H : SignHost) (s : Signed) (t : Instant) (trust : Members) :
    Prop :=
  ∃ review, verifyReviewReceipt C (verifierAt H s t trust) s.path
    (get (lit "builder_id") s.gate) s.digest s.metadataDigest
    trust = .ok review

/-- A trust store the verifier accepts, with this record in it. -/
structure HoldsRecord (trust record : Members) : Prop where
  names : keysEq trust [lit "schema_version", lit "reviewers"] = true
  version : pyEq (get (lit "schema_version") trust) (.str (lit "1.0")) = true
  rows : ∃ rows, get (lit "reviewers") trust = .arr rows ∧ checkReviewers [] rows = .ok ()
    ∧ ∃ row, .obj row ∈ rows ∧ ∀ name ∈ keys record, get name row = get name record

/-- The receipt is accepted at the moment of signing and until it expires, under every trust store
that holds the signer's record. -/
def Usable (C : Crypto) (H : SignHost) (key : SigningKey C) (s : Signed) : Prop :=
  ∀ t trust, H.now.val ≤ t.val → (t = H.now ∨ t.val < s.expires.val) →
    HoldsRecord trust (publicRecord s.reviewerId key.publicKey) → s.Accepted C H t trust

/-- What the verifier asks beyond the signer: a gate that names its builder, a path without a
backslash that is spelled below `.sddgov/reviews`, and a validity that outlives what was cut off the
clock (and ends five minutes before the last year does). -/
structure Outlasts (H : SignHost) (validHours : PyFloat) : Prop where
  builder : ∃ gate, H.loadGate = .ok (.obj gate)
    ∧ (text? (get (lit "builder_id") gate)).isSome = true
  path : ∃ path, H.relativeOutput = some path ∧ path.contains (cp 0x5C) = false
    ∧ isUnderReviews path = true
  window : ∃ delta, hoursDelta validHours = some delta
    ∧ (H.now.val : Int) < H.now.second.val + delta
    ∧ H.now.second.val + delta + minutes 5 ≤ instantEnd

variable {C : Crypto} {H : SignHost} {key : SigningKey C}

/-! ## The verifier, stage by stage -/

/-- The path of a signed review is taken unless it has a backslash: the writer has made the file at
it. -/
theorem boundedPath_signed {validHours : PyFloat} {s : Signed} (h : SignedOk C H key validHours s)
    (label path : PyStr) :
    boundedRepositoryPath H.paths (.str s.path) label = .ok path ↔ s.path.contains (cp 0x5C) = false
    ∧ path = s.path := by
  obtain ⟨hne, hrelative, hlink, hinside, hresolve⟩ := H.resolved s.path h.path.1 h.path.2
  have hempty : s.path.isEmpty = false := by simpa using hne
  unfold boundedRepositoryPath
  dsimp only
  cases hbackslash : s.path.contains (cp 0x5C) with
  | true => simp [hempty]
  | false =>
    rw [hempty, hrelative hbackslash, hlink, hresolve, hinside]
    constructor
    · intro hok
      exact ⟨rfl, (Except.ok.inj hok).symm⟩
    · rintro ⟨-, rfl⟩
      rfl

theorem text?_isSome {s : PyStr} (h : isBlank s = false) : (text? (.str s)).isSome = true := by
  simp [text?, h]

/-- A digest is not blank. -/
theorem digest_shown (hhex : C.Hex) (b : Bytes) : isBlank (C.sha256 b) = false := by
  have hdigest := hhex b
  unfold isSha256 at hdigest
  rw [Bool.and_eq_true, beq_iff_eq] at hdigest
  cases htext : C.sha256 b with
  | nil =>
    rw [htext] at hdigest
    exact absurd hdigest.1 (by decide)
  | cons c rest =>
    rw [htext, List.all_cons, Bool.and_eq_true] at hdigest
    have hc : isSpace c = false := by
      have hrange := hdigest.2.1
      simp only [Bool.or_eq_true, Bool.and_eq_true, decide_eq_true_eq] at hrange
      unfold isSpace
      simp only [Bool.or_eq_false_iff, Bool.and_eq_false_iff, decide_eq_false_iff_not,
        beq_eq_false_iff_ne, ne_eq]
      omega
    rw [isBlank, List.all_cons, hc]
    rfl

theorem stamp_shown (t : Instant) : isBlank (stamp t) = false := by
  unfold isBlank stamp
  rw [List.all_append, show (lit "Z").all isSpace = false by decide, Bool.and_false]

theorem isoText_shown (t : Instant) : isBlank (Governance.isoText t) = false := by
  unfold isBlank Governance.isoText
  rw [List.all_append, show (lit "Z").all isSpace = false by decide, Bool.and_false]

theorem pyEq_str_self (s : PyStr) : pyEq (.str s) (.str s) = true := (pyEq_str_right _ s).mpr rfl

theorem keysEq_of_keys {m : Members} {names : List PyStr} (h : keys m = names) :
    keysEq m names = true := by
  unfold keysEq
  rw [h]
  simp

/-- What the verifier reads from an envelope. -/
theorem readReview_envelope (payload : Members) (signature : PyStr) :
    readReview (signedEnvelope payload signature)
      = if keysEq payload reviewFields && reviewFields.all fun name =>
      (text? (get name payload)).isSome then
          .ok (payload, signature)
        else .error (valueError "protected-file review payload has an invalid contract") := by
  have hnames : keysEq (signedEnvelope payload signature)
    (["schema_version", "algorithm", "review", "signature"].map lit)
      = true := keysEq_of_keys rfl
  have hversion : get (lit "schema_version") (signedEnvelope payload signature)
    = .str (lit "1.0") := rfl
  have halgorithm : get (lit "algorithm") (signedEnvelope payload signature)
    = .str (lit "ed25519") := rfl
  have hreview : get (lit "review") (signedEnvelope payload signature) = .obj payload := rfl
  have hsignature : get (lit "signature") (signedEnvelope payload signature) = .str signature := rfl
  generalize signedEnvelope payload signature = envelope
    at hnames hversion halgorithm hreview hsignature ⊢
  unfold readReview
  rw [hnames, hversion, halgorithm, hreview, hsignature, pyEq_str_self, pyEq_str_self,
    Bool.and_self, Bool.and_self, if_pos rfl]

/-- The fields of a payload, in the order the verifier looks at them. -/
theorem fields_signed (reviewId reviewerId digest metadataDigest issuedAt expiresAt nonce : PyStr)
    (builderId : Json) :
    reviewFields.map (fun name => get name
        (signedPayload reviewId reviewerId builderId digest metadataDigest issuedAt
          expiresAt nonce))
      = [.str reviewId, .str reviewerId, builderId, .str digest, .str metadataDigest,
        .str (lit "approved"),
          .str issuedAt, .str expiresAt, .str nonce] := rfl

/-- A signed payload is a review just where the builder is text. -/
theorem readReview_signed {reviewId reviewerId digest metadataDigest issuedAt expiresAt
    nonce : PyStr} {builderId : Json}
    {signature : PyStr} (hreview : isBlank reviewId = false)
    (hreviewer : isBlank reviewerId = false)
    (hdigest : isBlank digest = false) (hmetadata : isBlank metadataDigest = false)
    (hissued : isBlank issuedAt = false) (hexpires : isBlank expiresAt = false)
    (hnonce : isBlank nonce = false)
    (v : Members × PyStr) :
    readReview
    (signedEnvelope (signedPayload reviewId reviewerId builderId digest metadataDigest issuedAt
    expiresAt nonce)
        signature) = .ok v
      ↔ (text? builderId).isSome = true
        ∧ v = (signedPayload reviewId reviewerId builderId digest metadataDigest issuedAt
          expiresAt nonce,
            signature) := by
  have hfields := fields_signed reviewId reviewerId digest metadataDigest issuedAt expiresAt
    nonce builderId
  have hnames :
    keysEq (signedPayload reviewId reviewerId builderId digest metadataDigest issuedAt
    expiresAt nonce)
      reviewFields = true := keysEq_of_keys rfl
  generalize signedPayload reviewId reviewerId builderId digest metadataDigest issuedAt expiresAt
    nonce = payload
    at hfields hnames ⊢
  have hall : (reviewFields.all fun name => (text? (get name payload)).isSome)
    = (text? builderId).isSome := by
    have hmap : (reviewFields.all fun name => (text? (get name payload)).isSome)
        = (reviewFields.map fun name => get name payload).all fun v => (text? v).isSome := by
      rw [List.all_map]
      rfl
    have happroved : isBlank (lit "approved") = false := by decide
    rw [hmap, hfields]
    simp only [List.all_cons, List.all_nil, text?_isSome hreview, text?_isSome hreviewer,
      text?_isSome hdigest,
      text?_isSome hmetadata, text?_isSome happroved, text?_isSome hissued, text?_isSome hexpires,
        text?_isSome hnonce,
      Bool.true_and, Bool.and_true]
  rw [readReview_envelope, hnames, hall, Bool.true_and]
  split
  · next htext => simp [htext, eq_comm]
  · next htext => simp [htext]

/-- A text that reads as this time. -/
theorem reviewTime_of {text : PyStr} {field : String} {t : Instant}
    (h : fromisoformat (Governance.replaceZulu text) = some ⟨t.val, some 0⟩) :
    reviewTime (.str text) field = .ok t := by
  have hmicros : (⟨t.val, some 0⟩ : Parsed).micros 0 = t.val := by simp [Parsed.micros]
  unfold reviewTime
  dsimp only
  rw [h]
  dsimp only
  rw [hmicros, Governance.ofInt?_val]

theorem second_second (t : Instant) : t.second.second = t.second := by
  unfold Instant.second
  simp

theorem reviewTime_issued (t : Instant) (field : String) :
    reviewTime (.str (stamp t.second)) field = .ok t.second := by
  apply reviewTime_of
  rw [Governance.fromisoformat_zulu_stamp, second_second]

theorem reviewTime_expires (t : Instant) (field : String) :
    reviewTime (.str (Governance.isoText t)) field = .ok t :=
    reviewTime_of (Governance.fromisoformat_isoText t)

/-- A duration can be added if the sum is within the calendar. -/
theorem addTime_isOk {t : Instant} {delta : TimeDelta} (h0 : (0 : Int) ≤ delta) :
    (∃ u, Autonomy.addTime t delta = .ok u) ↔ (t.val : Int) + delta < instantEnd := by
  constructor
  · rintro ⟨u, hu⟩
    have hval := addTime_ok hu
    have hlt := u.isLt
    omega
  · intro hlt
    have hbounds : 0 ≤ (t.val : Int) + delta ∧ ((t.val : Int) + delta).toNat < instantEnd := by
      constructor <;> omega
    unfold Autonomy.addTime Instant.add? Instant.ofInt?
    rw [dif_pos hbounds]
    exact ⟨_, rfl⟩

/-- The window of a receipt that was issued at a whole second and expires at most a day later. -/
theorem checkReviewWindow_signed {now issued expires : Instant} {review : Members}
    (hissued : reviewTime (get (lit "issued_at") review) "issued_at" = .ok issued)
    (hexpires : reviewTime (get (lit "expires_at") review) "expires_at" = .ok expires)
    (hstart : issued.val ≤ now.val) (hday : (expires.val : Int) - issued.val ≤ hours 24) :
    checkReviewWindow now review = .ok () ↔ now.val < expires.val
    ∧ (now.val : Int) + minutes 5 < instantEnd := by
  have hfive : (0 : Int) ≤ minutes 5 := by decide
  constructor
  · intro h
    obtain ⟨i, hi, h⟩ := except_bind_ok.mp h
    obtain ⟨e, he, h⟩ := except_bind_ok.mp h
    obtain ⟨latest, hlatest, h⟩ := except_bind_ok.mp h
    obtain ⟨_, hwindow, h⟩ := except_bind_ok.mp h
    rw [hexpires] at he
    obtain rfl := Except.ok.inj he
    rw [require_ok, Bool.and_eq_true, Bool.and_eq_true, decide_eq_true_eq, decide_eq_true_eq]
      at hwindow
    exact ⟨hwindow.1.2, (addTime_isOk hfive).mp ⟨latest, hlatest⟩⟩
  · rintro ⟨hbefore, hend⟩
    obtain ⟨latest, hlatest⟩ := (addTime_isOk hfive).mpr hend
    have hval := addTime_ok hlatest
    refine except_bind_ok.mpr ⟨issued, hissued, except_bind_ok.mpr ⟨expires, hexpires,
      except_bind_ok.mpr ⟨latest, hlatest, except_bind_ok.mpr ⟨(), ?_, ?_⟩⟩⟩⟩
    · rw [require_ok, Bool.and_eq_true, Bool.and_eq_true, decide_eq_true_eq, decide_eq_true_eq,
        decide_eq_true_eq]
      refine ⟨⟨?_, hbefore⟩, by omega⟩
      omega
    · rw [require_ok, decide_eq_true_eq]
      exact hday

/-! ## The reviewer's record -/

/-- The id of a record that passes. -/
theorem reviewerRow?_ok {seen : List PyStr} {row : Json} {reviewerId : PyStr}
    (h : reviewerRow? seen row = .ok reviewerId) :
    ∃ m, row = .obj m ∧ get (lit "reviewer_id") m = .str reviewerId ∧ reviewerId ∉ seen := by
  unfold reviewerRow? at h
  dsimp only at h
  split at h
  · next m =>
    split at h
    · cases h
    split at h
    · cases h
    next found hfound =>
    split at h
    · cases h
    obtain ⟨known, -, h⟩ := except_bind_ok.mp h
    split at h
    · split at h
      · cases h
      · next hnew =>
        obtain rfl := Except.ok.inj h
        exact ⟨m, rfl, eq_of_text? hfound, by simpa using hnew⟩
    · cases h
  · cases h

/-- A name that was seen is not in what follows. -/
theorem filter_seen {reviewerId : PyStr} : ∀ {rows : List Json} {seen : List PyStr},
    checkReviewers seen rows = .ok () →
    reviewerId ∈ seen → rows.filter (isActiveReviewer (.str reviewerId)) = []
  | [], _, _, _ => rfl
  | row :: rows, seen, h, hseen => by
    obtain ⟨found, hfound, hrest⟩ := except_bind_ok.mp h
    obtain ⟨m, rfl, hname, hnew⟩ := reviewerRow?_ok hfound
    have hne : found ≠ reviewerId := by
      rintro rfl
      exact hnew hseen
    have hinactive : isActiveReviewer (.str reviewerId) (.obj m) = false := by
      have hpy : pyEq (get (lit "reviewer_id") m) (.str reviewerId) = false := by
        rw [hname]
        exact Bool.eq_false_iff.mpr fun heq => hne (by simpa using (pyEq_str_right _ _).mp heq)
      rw [isActiveReviewer, hpy]
      rfl
    rw [List.filter_cons, hinactive]
    exact filter_seen hrest (List.mem_cons_of_mem _ hseen)

/-- The record of an active reviewer is the only one with its name. -/
theorem filter_active {reviewerId : PyStr} {m : Members}
    (hname : get (lit "reviewer_id") m = .str reviewerId)
    (hactive : get (lit "status") m = .str (lit "active")) :
    ∀ {rows : List Json} {seen : List PyStr}, checkReviewers seen rows = .ok () → .obj m ∈ rows →
      rows.filter (isActiveReviewer (.str reviewerId)) = [.obj m]
  | [], _, _, hmem => absurd hmem (by simp)
  | row :: rows, seen, h, hmem => by
    obtain ⟨found, hfound, hrest⟩ := except_bind_ok.mp h
    obtain ⟨m', rfl, hname', -⟩ := reviewerRow?_ok hfound
    rcases List.mem_cons.mp hmem with heq | hmem
    · obtain rfl := Json.obj.inj heq
      have hid : found = reviewerId := by
        rw [hname] at hname'
        exact (Json.str.inj hname').symm
      subst hid
      have hself : isActiveReviewer (.str found) (.obj m) = true := by
        rw [isActiveReviewer, hname, hactive, pyEq_str_self, pyEq_str_self]
        rfl
      rw [List.filter_cons, hself, filter_seen hrest (List.mem_cons_self ..)]
      rfl
    · have hinactive : isActiveReviewer (.str reviewerId) (.obj m') = false := by
        have hpy : pyEq (get (lit "reviewer_id") m') (.str reviewerId) = false := by
          refine Bool.eq_false_iff.mpr fun heq => ?_
          have hsame : found = reviewerId := by
            rw [hname'] at heq
            simpa using (pyEq_str_right _ _).mp heq
          subst hsame
          have hnone := @filter_seen found _ _ hrest (List.mem_cons_self ..)
          have hin : .obj m ∈ rows.filter (isActiveReviewer (.str found)) := by
            refine List.mem_filter.mpr ⟨hmem, ?_⟩
            rw [isActiveReviewer, hname, hactive, pyEq_str_self, pyEq_str_self]
            rfl
          rw [hnone] at hin
          cases hin
        rw [isActiveReviewer, hpy]
        rfl
      rw [List.filter_cons, hinactive]
      exact filter_active hname hactive hrest hmem

/-- A store that holds the record gives its key. -/
theorem reviewerKey_of_holds {trust : Members} {reviewerId : PyStr} {publicKey : Bytes}
    (h : HoldsRecord trust (publicRecord reviewerId publicKey)) :
    reviewerKey trust (.str reviewerId) = .ok (b64encode publicKey) := by
  obtain ⟨rows, hrows, hchecked, row, hmem, hfields⟩ := h.rows
  have hname : get (lit "reviewer_id") row = .str reviewerId :=
    hfields _ (by simp [publicRecord, keys])
  have hactive : get (lit "status") row = .str (lit "active") :=
    hfields _ (by simp [publicRecord, keys])
  have hkey : get (lit "public_key") row = .str (b64encode publicKey) :=
    hfields _ (by simp [publicRecord, keys])
  have hpublic : Autonomy.publicKeyOf (.obj row) = .ok (b64encode publicKey) := by
    rw [Autonomy.publicKeyOf, hkey]
  have hsingle := filter_active hname hactive hchecked hmem
  unfold reviewerKey
  dsimp only
  rw [h.names, h.version, hrows, if_neg (by simp)]
  refine except_bind_ok.mpr ⟨(), hchecked, ?_⟩
  rw [hsingle]
  exact hpublic

/-! ## The join -/

/-- The verifier accepts what was signed just where the builder is text, the path is plain and the
moment lies before the expiry. -/
theorem accepted_iff {validHours : PyFloat} {s : Signed} (hhex : C.Hex)
    (h : SignedOk C H key validHours s) {t : Instant}
    {trust : Members} (hstart : H.now.val ≤ t.val)
    (htrust : HoldsRecord trust (publicRecord s.reviewerId key.publicKey)) :
    s.Accepted C H t trust ↔ (text? (get (lit "builder_id") s.gate)).isSome = true
      ∧ (s.path.contains (cp 0x5C) = false ∧ isUnderReviews s.path = true)
      ∧ t.val < s.expires.val ∧ (t.val : Int) + minutes 5 < instantEnd := by
  obtain ⟨delta, -, h0, hday, hexpires⟩ := h.delta
  obtain ⟨a, b, hdigest, hmetadata⟩ := h.digests
  obtain ⟨reviewId, message, hreview, hmessage, henvelope⟩ := h.envelope
  have hread := @readReview_signed reviewId s.reviewerId s.digest s.metadataDigest
    (stamp H.now.second)
    (Governance.isoText s.expires) H.nonce (get (lit "builder_id") s.gate)
      (b64encode (key.sign message)) hreview
    h.reviewer (by rw [hdigest]; exact digest_shown hhex a)
      (by rw [hmetadata]; exact digest_shown hhex b)
    (stamp_shown _) (isoText_shown _) H.nonceShown
  have hkey := reviewerKey_of_holds htrust
  have hsecond : H.now.second.val ≤ H.now.val := Nat.div_mul_le_self ..
  have hfields := fields_signed reviewId s.reviewerId s.digest s.metadataDigest (stamp H.now.second)
    (Governance.isoText s.expires) H.nonce (get (lit "builder_id") s.gate)
  generalize signedPayload reviewId s.reviewerId
    (get (lit "builder_id") s.gate) s.digest s.metadataDigest
    (stamp H.now.second) (Governance.isoText s.expires) H.nonce = payload
      at hread hmessage henvelope hfields
  simp only [reviewFields, List.map_cons, List.map_nil, List.cons.injEq, and_true] at hfields
  obtain ⟨-, hreviewer, hbuilder, hchange, hgate, hverdict, hissued, hexpiry, -⟩ := hfields
  have hwindow := @checkReviewWindow_signed t H.now.second s.expires payload
    (by rw [hissued]; exact reviewTime_issued _ _)
      (by rw [hexpiry]; exact reviewTime_expires _ _) (by omega)
    (by have hle : @LE.le Int _ delta (hours 24) := hday; omega)
  have hpath := boundedPath_signed h (lit "review receipt")
  constructor
  · rintro ⟨review, hrun⟩
    obtain ⟨path, hfound, hrun⟩ := except_bind_ok.mp hrun
    obtain ⟨_, hunder, hrun⟩ := except_bind_ok.mp hrun
    obtain ⟨loaded, hloaded, hrun⟩ := except_bind_ok.mp hrun
    obtain ⟨read, hfrom, hrun⟩ := except_bind_ok.mp hrun
    obtain ⟨_, -, hrun⟩ := except_bind_ok.mp hrun
    obtain ⟨_, -, hrun⟩ := except_bind_ok.mp hrun
    obtain ⟨_, hin, -⟩ := except_bind_ok.mp hrun
    obtain ⟨hplain, rfl⟩ := (hpath path).mp hfound
    rw [require_ok] at hunder
    have hsame : loaded = s.envelope := by
      have hfile : (verifierAt H s t trust).loadReceipt s.path = .ok s.envelope := if_pos rfl
      rw [hfile] at hloaded
      exact (Except.ok.inj hloaded).symm
    rw [hsame, henvelope] at hfrom
    obtain ⟨htext, rfl⟩ := (hread read).mp hfrom
    exact ⟨htext, ⟨hplain, hunder⟩, hwindow.mp hin⟩
  · rintro ⟨htext, ⟨hplain, hunder⟩, hin⟩
    obtain ⟨builder, hsome⟩ := Option.isSome_iff_exists.mp htext
    have hbuilderText := eq_of_text? hsome
    have hindependent : pyEq (.str s.reviewerId) (get (lit "builder_id") s.gate) = false := by
      have hother := h.independent
      rw [hbuilderText] at hother ⊢
      refine Bool.eq_false_iff.mpr fun heq => ?_
      have hstr := (pyEq_str_right _ _).mp heq
      rw [hstr, pyEq_str_self] at hother
      cases hother
    refine ⟨payload, except_bind_ok.mpr ⟨s.path, (hpath _).mpr ⟨hplain, rfl⟩,
      except_bind_ok.mpr ⟨(), ?_,
      except_bind_ok.mpr ⟨s.envelope, if_pos rfl, except_bind_ok.mpr
        ⟨(payload, b64encode (key.sign message)), ?_,
      except_bind_ok.mpr ⟨(), ?_,
      except_bind_ok.mpr ⟨(), ?_, except_bind_ok.mpr
        ⟨(), hwindow.mpr hin, except_bind_ok.mpr ⟨b64encode key.publicKey, ?_,
      except_bind_ok.mpr ⟨(), ?_, rfl⟩⟩⟩⟩⟩⟩⟩⟩⟩⟩
    · rw [require_ok]
      exact hunder
    · rw [henvelope]
      exact (hread _).mpr ⟨htext, rfl⟩
    · rw [require_ok, hbuilder, hreviewer, hindependent, hbuilderText, pyEq_str_self]
      rfl
    · rw [require_ok, hchange, hgate, hverdict, pyEq_str_self, pyEq_str_self, pyEq_str_self]
      rfl
    · rw [hreviewer]
      exact hkey
    · unfold checkReviewSignature
      rw [b64decode_b64encode, b64decode_b64encode, hmessage]
      dsimp only
      rw [require_ok, key.verifies message, key.length]
      rfl

/-- The store with this record alone. -/
def soleTrust (record : Members) : Members :=
  [(lit "schema_version", .str (lit "1.0")), (lit "reviewers", .arr [.obj record])]

/-- The trust store with one record holds that record. -/
theorem soleTrust_holds {reviewerId : PyStr} (h : isBlank reviewerId = false) (publicKey : Bytes) :
    HoldsRecord (soleTrust (publicRecord reviewerId publicKey))
    (publicRecord reviewerId publicKey) := by
  have hrow : reviewerRow? [] (.obj (publicRecord reviewerId publicKey)) = .ok reviewerId := by
    have hnames : keysEq (publicRecord reviewerId publicKey)
        (["reviewer_id", "algorithm", "public_key", "status"].map lit) = true := keysEq_of_keys rfl
    have hname : get (lit "reviewer_id") (publicRecord reviewerId publicKey)
      = .str reviewerId := rfl
    have halgorithm : get (lit "algorithm") (publicRecord reviewerId publicKey)
      = .str (lit "ed25519") := rfl
    have hstatus : get (lit "status") (publicRecord reviewerId publicKey)
      = .str (lit "active") := rfl
    have hkey : get (lit "public_key") (publicRecord reviewerId publicKey)
      = .str (b64encode publicKey) := rfl
    have htext : text? (.str reviewerId) = some reviewerId := by
      rw [text?, h]
      rfl
    generalize publicRecord reviewerId publicKey = record at hnames hname halgorithm hstatus hkey ⊢
    unfold reviewerRow?
    dsimp only
    rw [hnames, hname, htext, halgorithm, pyEq_str_self, if_neg (by simp)]
    dsimp only
    rw [if_neg (by simp), hstatus, hkey]
    exact except_bind_ok.mpr ⟨true, by decide, rfl⟩
  refine ⟨keysEq_of_keys rfl, pyEq_str_self _, _, rfl, except_bind_ok.mpr ⟨reviewerId, hrow, rfl⟩,
    _, List.mem_singleton_self _,
    fun _ _ => rfl⟩

/-- What was signed can be used until it expires just where it outlasts the verifier's own
questions. -/
theorem signed_usable_iff (hhex : C.Hex) {reviewer review : PyStr} {baseRef : Option PyStr}
    {validHours : PyFloat}
    {approved : Bool} {s : Signed}
    (h : signProtectedReview C H key reviewer review baseRef validHours approved = .ok s) :
    Usable C H key s ↔ Outlasts H validHours := by
  have hsigned := signedOk_of_ok h
  obtain ⟨delta, hdelta, h0, hday, hexpires⟩ := hsigned.delta
  constructor
  · intro husable
    have hholds := soleTrust_holds hsigned.reviewer key.publicKey
    have hnow := (accepted_iff hhex hsigned (Nat.le_refl _) hholds).mp
      (husable H.now _ (Nat.le_refl _) (Or.inl rfl) hholds)
    obtain ⟨htext, hpath, hbefore, hend⟩ := hnow
    have hlast : s.expires.val - 1 < instantEnd := by
      have hlt := s.expires.isLt
      omega
    have hthen := (accepted_iff hhex hsigned (t := ⟨s.expires.val - 1, hlast⟩)
      (by show H.now.val ≤ s.expires.val - 1; omega)
      hholds).mp (husable _ _ (by show H.now.val ≤ s.expires.val - 1; omega)
        (Or.inr (by show s.expires.val - 1 < s.expires.val; omega)) hholds)
    have hlate : @LT.lt Int _ ((s.expires.val - 1 : Nat) + 300000000) instantEnd := hthen.2.2.2
    refine ⟨⟨s.gate, hsigned.gate, htext⟩, ⟨s.path, hsigned.path.1, hpath⟩, delta, hdelta, ?_, ?_⟩
    · rw [← hexpires]
      exact_mod_cast hbefore
    · rw [← hexpires]
      show @LE.le Int _ (s.expires.val + 300000000) instantEnd
      omega
  · intro houtlasts t trust hstart hbefore htrust
    obtain ⟨gate, hgate, htext⟩ := houtlasts.builder
    obtain ⟨path, hpath, hplain⟩ := houtlasts.path
    obtain ⟨delta', hdelta', hlasts, hend⟩ := houtlasts.window
    rw [hsigned.gate] at hgate
    obtain rfl := Json.obj.inj (Except.ok.inj hgate)
    rw [hsigned.path.1] at hpath
    obtain rfl := Option.some.inj hpath
    rw [hdelta] at hdelta'
    obtain rfl := Option.some.inj hdelta'
    rw [← hexpires] at hlasts hend
    have hafter : @LT.lt Int _ H.now.val s.expires.val := hlasts
    have hlate : @LE.le Int _ (s.expires.val + 300000000) instantEnd := hend
    refine (accepted_iff hhex hsigned hstart htrust).mpr ⟨htext, hplain, ?_, ?_⟩
    · rcases hbefore with rfl | hbefore
      · omega
      · exact hbefore
    · show @LT.lt Int _ (t.val + 300000000) instantEnd
      rcases hbefore with rfl | hbefore
      · omega
      · omega

/-! ## Two validities -/

/-- `2 ** exp`, for an exponent a double has. -/
def powerOfTwo (neg : Bool) (n : Nat) (h : n ≤ 1022) : PyFloat :=
  .finite neg ⟨mantMin, -52 - (n : Int), by
    decide, by unfold expMin; omega, by unfold expMax; omega, Or.inl (Nat.le_refl _)⟩

/-- An hour. -/
def oneHour : PyFloat := powerOfTwo false 0 (by decide)

/-- Some four picoseconds. -/
def tinyHours : PyFloat := powerOfTwo false 40 (by decide)

/-- Its microseconds: 3600000000 shifted to 53 bits. -/
def tinyMicros : Magnitude :=
  ⟨7549747200000000, -61, by decide, by decide, by decide, Or.inl (by decide)⟩

/-- An hour is as many microseconds as it has. -/
theorem oneHour_delta : hoursDelta oneHour = some 3600000000
    ∧ validityOutOfRange oneHour = false := by
  have hvalue : oneHour.value? = some 1 := by
    norm_num [oneHour, powerOfTwo, PyFloat.value?, Magnitude.value, mantMin]
  constructor
  · have hrest : ((1 : ℚ) - ⌊(1 : ℚ)⌋₊) * 3600000000 = Magnitude.zero.value := by
      norm_num [Magnitude.value, Magnitude.zero]
    have hround : roundHalfEven Magnitude.zero.value = 0 := by
      rw [show Magnitude.zero.value = ((0 : Nat) : ℚ) by simp [Magnitude.value, Magnitude.zero],
        roundHalfEven_natCast]
    unfold hoursDelta
    rw [hvalue, Option.bind_eq_bind, Option.bind_some]
    dsimp only
    rw [hrest, roundRat_value, Option.bind_eq_bind, Option.bind_some, hround, Nat.floor_one]
    rfl
  · have hunfold : validityOutOfRange oneHour = decide
      (oneHour.value?.getD 0 ≤ 0 ∨ 24 < oneHour.value?.getD 0) := rfl
    rw [hunfold, hvalue]
    norm_num

/-- A validity can be so small that no microsecond is left of it. -/
theorem tinyHours_delta : hoursDelta tinyHours = some 0 ∧ validityOutOfRange tinyHours = false := by
  have hvalue : tinyHours.value? = some (1 / 1099511627776) := by
    norm_num [tinyHours, powerOfTwo, PyFloat.value?, Magnitude.value, mantMin]
  constructor
  · have hfloor : ⌊(1 / 1099511627776 : ℚ)⌋₊ = 0 := by norm_num [Nat.floor_eq_zero]
    have hrest : ((1 / 1099511627776 : ℚ) - (0 : Nat)) * 3600000000 = tinyMicros.value := by
      norm_num [Magnitude.value, tinyMicros]
    have hround : roundHalfEven tinyMicros.value ≤ 0 :=
      roundHalfEven_le (by norm_num [Magnitude.value, tinyMicros]) tinyMicros.value_nonneg
    unfold hoursDelta
    rw [hvalue, Option.bind_eq_bind, Option.bind_some]
    dsimp only
    rw [hfloor, hrest, roundRat_value, Option.bind_eq_bind, Option.bind_some, Nat.le_zero.mp hround]
    rfl
  · have hunfold : validityOutOfRange tinyHours
        = decide (tinyHours.value?.getD 0 ≤ 0 ∨ 24 < tinyHours.value?.getD 0) := rfl
    rw [hunfold, hvalue]
    norm_num

/-! ## A repository to sign in -/

/-- The digest of no change. -/
def noChangeDigest : Nat := 0xe3b0c44298fc1c149afbf4c8996fb92427ae41e4649b934ca495991b7852b855

def signGate : Members :=
  (["base_sha", "head_sha", "risk_level", "builder_id", "deps", "rollback_path"].map fun name =>
    (lit name, .str (lit name)))
  ++ [(lit "schema_version", .str (lit "1.0")),
    (lit "change_digest", .str (hexDigest noChangeDigest)),
    (lit "protected_file_review", .str (lit ".sddgov/reviews/one.json"))]

def signGateDigest : Nat := 0x6cca613bb23cb41e32640553e1601fe8035cd56e12eee5520cbb1f6202c83f86

/-- Half a second after a whole one. -/
def signNow : Instant := ⟨63000000000500000, by decide⟩

/-- What is signed there, with this expiry. -/
def signMessage (expires : Instant) : Option Bytes :=
  canonical
    (.obj (signedPayload (lit "R-1") (lit "reviewer") (.str (lit "builder_id"))
    (hexDigest noChangeDigest)
    (hexDigest signGateDigest) (stamp signNow.second) (Governance.isoText expires) (lit "nonce")))

/-- The real signatures of the two messages that are signed below: one expires after an hour, one
at once. -/
def signatures : List (Option Bytes × Option Bytes) :=
  [(signMessage ⟨63000003600000000, by decide⟩,
      b64decode (lit "LOgZ8WKua9y3Iic0+hJxyfXK6bxCMoqElvSr+I1hE01PK9EyXdLCx9TUkn2ZeiUeG3hnttqtodLefxkRZfkQDA==")),
    (signMessage signNow.second,
      b64decode (lit "d2b30eZBJtnrwkOc2eebEaQstMTy5sb2NPc4rX/02iZxhlZf+DTKB06YVJkbyYxMR/oE13wzYTgC/c6cc4TlCQ=="))]

/-- The signature of a message; any other message stands for its own. -/
def signWith (message : Bytes) : Bytes :=
  ((signatures.find? fun row => row.1 == some message).bind Prod.snd).getD message

/-- The real digests of no change and of the gate. -/
def signCrypto : Crypto where
  sha256 :=
    (Crypto.ofTables [(some [], noChangeDigest), (metadataBytes signGate, signGateDigest)]
    []).sha256
  verifies _ signature message := signature == signWith message

def signKey : SigningKey signCrypto :=
  ⟨(b64decode (lit "+FlVydW0y5POmz2U1Z+eCLH2PXD11bxWrd4+9DMqXN8=")).getD [], signWith, by
    decide +kernel,
    fun message => beq_self_eq_true (signWith message)⟩

theorem signCrypto_hex : signCrypto.Hex := Crypto.ofTables_hex _ []

def signHost : SignHost where
  paths := ⟨fun _ => false, id, fun _ => true⟩
  gateInside := true
  loadGate := .ok (.obj signGate)
  externalPaths := .ok ()
  readTrust := .ok (.obj (soleTrust (publicRecord (lit "reviewer") signKey.publicKey)))
  outputIsLink := false
  relativeOutput := some (lit ".sddgov/reviews/one.json")
  underResolvedReviews := true
  outputExists := false
  status := .ok []
  baseSha _ := .ok (lit "base_sha")
  headSha := .ok (lit "head_sha")
  onlyAuditChanges _ _ := .ok true
  changeBytes _ := .ok []
  now := signNow
  nonce := lit "nonce"
  writeReceipt := .ok ()
  nonceShown := by decide
  resolved path hpath _ := by
    obtain rfl := Option.some.inj hpath
    exact ⟨by decide, fun _ => by decide, by decide, rfl, rfl⟩

/-- Plain texts joined by commas are plain. -/
theorem plain_joinComma {ts : List PyStr} (h : ∀ t ∈ ts, Plain t) : Plain (joinComma ts) := by
  induction ts with
  | nil => exact fun c hc => absurd hc (by simp [joinComma])
  | cons t ts ih =>
    have ht := h t (List.mem_cons_self ..)
    have hts := ih fun u hu => h u (List.mem_cons_of_mem _ hu)
    by_cases hnil : ts = []
    · subst hnil
      exact ht
    · rw [joinComma_cons t hnil]
      exact (ht.append (plain_lit (by decide))).append hts

/-- Printable members have a canonical form. -/
theorem canonical_plain {m : Members} (h : ∀ kv ∈ m, Plain kv.1 ∧ ∃ s, kv.2 = .str s ∧ Plain s) :
    ∃ message, canonical (.obj m) = some message := by
  have hmembers : (dumpsMembers m).isSome = true := by
    apply dumpsMembers_isSome
    intro kv hkv
    obtain ⟨-, s, hs, -⟩ := h kv hkv
    rw [hs]
    rfl
  obtain ⟨ts, hts⟩ := Option.isSome_iff_exists.mp hmembers
  have hdumps : dumps (.obj m) = some (lit "\x7b" ++ joinComma ((sortMembers ts).map memberText)
    ++ lit "\x7d") := by
    rw [dumps, hts]
    rfl
  have hplain : Plain (lit "\x7b" ++ joinComma ((sortMembers ts).map memberText)
    ++ lit "\x7d") := by
    refine ((plain_lit (by decide)).append (plain_joinComma fun t ht => ?_)).append
      (plain_lit (by decide))
    obtain ⟨kt, hkt, rfl⟩ := List.mem_map.mp ht
    rw [mem_sortMembers, (dumpsMembers_eq hts).1] at hkt
    obtain ⟨kv, hkv, rfl⟩ := List.mem_map.mp hkt
    obtain ⟨hname, s, hs, hvalue⟩ := h kv hkv
    rw [hs]
    exact (hname.stringText.append (plain_lit (by decide))).append hvalue.stringText
  unfold canonical
  rw [dumpsNan_of_dumps _ hdumps]
  exact ⟨_, utf8Encode_ascii hplain.isAscii⟩

theorem signGate_bound : (reviewBinding signCrypto signHost (lit "main")).isOk = true := by
    decide +kernel

/-- The record of the one reviewer. -/
def signRecord : Json := .obj (publicRecord (lit "reviewer") signKey.publicKey)

theorem signTrust_loaded : loadTrust signHost = .ok [signRecord] := by rfl

theorem signRecord_active : [signRecord].filter (isActiveReviewer (.str (lit "reviewer")))
    = [signRecord] := by rfl

theorem signRecord_same : pyEq signRecord signRecord = true := by decide

/-- The reviewer signs, whatever the validity. -/
theorem signHost_signs {validHours : PyFloat} {delta : TimeDelta}
    (hdelta : hoursDelta validHours = some delta)
    (hrange : validityOutOfRange validHours = false) :
    ∃ s, signProtectedReview signCrypto signHost signKey (lit "reviewer")
      (lit "R-1") (some (lit "main")) validHours true = .ok s := by
  have hbounds := hoursDelta_bounds hrange hdelta
  obtain ⟨⟨gate, digest, metadataDigest⟩, hbound⟩ := exists_of_isOk signGate_bound
  obtain ⟨hgate, a, b, hdigest, hmetadata⟩ := reviewBinding_ok hbound
  obtain rfl : signGate = gate := Json.obj.inj (Except.ok.inj hgate)
  have hend : @LT.lt Int _ (signNow.second.val + delta) instantEnd := by
    have hle : @LE.le Int _ delta (24 * 3600000000) := hbounds.2
    have hnow : signNow.second.val = 63000000000000000 := rfl
    have hyears : (instantEnd : Int) = 3652059 * 86400000000 := rfl
    rw [hnow, hyears]
    omega
  obtain ⟨expires, hexpires⟩ := (addTime_isOk hbounds.1).mpr hend
  have hpayload : ∃ message, canonical (.obj (signedPayload (lit "R-1") (lit "reviewer")
      (get (lit "builder_id") signGate) digest metadataDigest (stamp signNow.second)
        (Governance.isoText expires)
      (lit "nonce"))) = some message := by
    have hbuilder : get (lit "builder_id") signGate = .str (lit "builder_id") := rfl
    rw [hbuilder]
    apply canonical_plain
    have htexts : Plain digest ∧ Plain metadataDigest := 
      ⟨hdigest ▸ (Broker.plain_of_isSha256 (signCrypto_hex _)).1,
        hmetadata ▸ (Broker.plain_of_isSha256 (signCrypto_hex _)).1⟩
    have hplain : ∀ text : String, (lit text).all (fun c => 0x20 ≤ c.val && c.val < 0x80) = true →
        Plain (lit text) := fun _ h => plain_lit h
    simp only [signedPayload, List.forall_mem_cons, List.not_mem_nil, false_implies,
      implies_true, and_true,
      Json.str.injEq, exists_eq_left']
    refine ⟨⟨?_, ?_⟩, ⟨?_, ?_⟩, ⟨?_, ?_⟩, ⟨?_, htexts.1⟩, ⟨?_, htexts.2⟩, ⟨?_, ?_⟩,
      ⟨?_, Governance.plain_stamp _⟩,
      ⟨?_, Governance.plain_isoText _⟩, ?_, ?_⟩
    all_goals exact plain_lit (by decide)
  obtain ⟨message, hmessage⟩ := hpayload
  refine ⟨⟨signGate, digest, metadataDigest, lit ".sddgov/reviews/one.json",
      signedEnvelope (signedPayload (lit "R-1") (lit "reviewer")
        (get (lit "builder_id") signGate) digest metadataDigest
        (stamp signNow.second) (Governance.isoText expires) (lit "nonce"))
          (b64encode (signKey.sign message)),
      lit "reviewer", expires⟩,
    except_bind_ok.mpr ⟨lit "reviewer", rfl, except_bind_ok.mpr
      ⟨lit "R-1", rfl, except_bind_ok.mpr ⟨(), rfl,
    except_bind_ok.mpr
      ⟨(), by rw [hrange]; rfl, except_bind_ok.mpr ⟨(), rfl, except_bind_ok.mpr ⟨.obj signGate, rfl,
    except_bind_ok.mpr ⟨(), rfl, except_bind_ok.mpr
      ⟨(), rfl, except_bind_ok.mpr ⟨[signRecord], signTrust_loaded, ?_⟩⟩⟩⟩⟩⟩⟩⟩⟩⟩
  rw [signRecord_active]
  refine except_bind_ok.mpr ⟨(), require_ok.mpr signRecord_same,
    except_bind_ok.mpr ⟨lit ".sddgov/reviews/one.json", rfl,
    except_bind_ok.mpr ⟨(signGate, digest, metadataDigest), hbound, except_bind_ok.mpr ⟨(), rfl,
    except_bind_ok.mpr ⟨(), rfl, ?_⟩⟩⟩⟩⟩
  rw [hdelta]
  refine except_bind_ok.mpr ⟨expires, hexpires, ?_⟩
  dsimp only
  have hcanonical :
    canonical
    (.obj (signedPayload (lit "R-1") (lit "reviewer") (get (lit "builder_id") signGate) digest
      metadataDigest (stamp signHost.now.second) (Governance.isoText expires) signHost.nonce))
        = some message := hmessage
  rw [hcanonical]
  rfl

/-- An hour's receipt can be used. -/
theorem signed_usable_sample : ∃ s, signProtectedReview signCrypto signHost signKey (lit "reviewer")
    (lit "R-1")
    (some (lit "main")) oneHour true = .ok s ∧ Usable signCrypto signHost signKey s := by
  obtain ⟨s, hs⟩ := signHost_signs oneHour_delta.1 oneHour_delta.2
  refine ⟨s, hs, (signed_usable_iff signCrypto_hex hs).mpr ⟨⟨signGate, rfl, by decide⟩,
    ⟨lit ".sddgov/reviews/one.json", rfl, by decide, by decide⟩, 3600000000,
      oneHour_delta.1, ?_, ?_⟩⟩
  · decide
  · decide

/-- A receipt that is valid for a few picoseconds has expired when it is signed. -/
theorem tiny_validity_unusable : ∃ s, signProtectedReview signCrypto signHost signKey
    (lit "reviewer") (lit "R-1")
    (some (lit "main")) tinyHours true = .ok s ∧ ¬ Usable signCrypto signHost signKey s := by
  obtain ⟨s, hs⟩ := signHost_signs tinyHours_delta.1 tinyHours_delta.2
  refine ⟨s, hs, fun husable => ?_⟩
  have hsigned := signedOk_of_ok hs
  have hholds := soleTrust_holds hsigned.reviewer signKey.publicKey
  have haccepted := (accepted_iff signCrypto_hex hsigned (Nat.le_refl _) hholds).mp
    (husable signHost.now _ (Nat.le_refl _) (Or.inl rfl) hholds)
  obtain ⟨delta, hdelta, -, -, hexpires⟩ := hsigned.delta
  rw [tinyHours_delta.1] at hdelta
  obtain rfl := Option.some.inj hdelta
  have hbefore : signHost.now.val < s.expires.val := haccepted.2.2.1
  have hcut : (s.expires.val : Int) = 63000000000000000 := hexpires
  have hnow : signHost.now.val = 63000000000500000 := rfl
  omega

end SddGov.MergeGate
