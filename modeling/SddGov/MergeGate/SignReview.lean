import SddGov.Governance.Isoformat
import SddGov.MergeGate.Review
import SddGov.TrustedRunner.ChildResult

/-!
# Signing a review

`sign_protected_review` and `_review_binding`: the checks of the reviewer, the gate,
the digests, the path and the validity, in the signer's own words, and the receipt it
writes. What a receipt has been through is `SignedOk`.
-/

namespace SddGov.MergeGate

open SddGov.Python SddGov.Git SddGov.TrustedRunner

/-! ## Keys -/

/-- A private Ed25519 key: what it signs verifies under its public half. -/
structure SigningKey (C : Crypto) where
  publicKey : Bytes
  sign : Bytes → Bytes
  length : publicKey.length = 32
  verifies : ∀ message, C.verifies publicKey (sign message) message = true

/-- The values below 64. -/
theorem b64Val_b64Char {n : Nat} (h : n < 64) :
    b64Val (b64Char n) = some n ∧ b64Char n ≠ padding := by
  have hall : ∀ n < 64, b64Val (b64Char n) = some n ∧ b64Char n ≠ padding := by decide
  exact hall n h

theorem byte_eq {n : Nat} {b : Byte} (h : n = b.val) : byte n = b := by
  subst h
  exact Fin.ext (by rw [byte_val, Nat.mod_eq_of_lt b.isLt])

/-- Base64 reads back. -/
theorem b64decode_b64encode : ∀ b : Bytes, b64decode (b64encode b) = some b
  | [] => rfl
  | [a] => by
    have ha := a.isLt
    have h1 := b64Val_b64Char (n := a.val / 4) (by omega)
    have h2 := b64Val_b64Char (n := a.val % 4 * 16) (by omega)
    rw [b64encode, b64decode, h1.1, h2.1]
    dsimp only
    rw [if_pos rfl, if_pos ⟨rfl, rfl⟩, @byte_eq _ a (by omega)]
  | [a, b] => by
    have ha := a.isLt
    have hb := b.isLt
    have h1 := b64Val_b64Char (n := a.val / 4) (by omega)
    have h2 := b64Val_b64Char (n := a.val % 4 * 16 + b.val / 16) (by omega)
    have h3 := b64Val_b64Char (n := b.val % 16 * 4) (by omega)
    rw [b64encode, b64decode, h1.1, h2.1]
    dsimp only
    rw [if_neg h3.2, h3.1]
    dsimp only
    rw [if_pos rfl, if_pos rfl, @byte_eq _ a (by omega), @byte_eq _ b (by omega)]
  | a :: b :: c :: rest => by
    have ha := a.isLt
    have hb := b.isLt
    have hc := c.isLt
    have h1 := b64Val_b64Char (n := a.val / 4) (by omega)
    have h2 := b64Val_b64Char (n := a.val % 4 * 16 + b.val / 16) (by omega)
    have h3 := b64Val_b64Char (n := b.val % 16 * 4 + c.val / 64) (by omega)
    have h4 := b64Val_b64Char (n := c.val % 64) (by omega)
    rw [b64encode, b64decode, h1.1, h2.1]
    dsimp only
    rw [if_neg h3.2, h3.1]
    dsimp only
    rw [if_neg h4.2, h4.1]
    dsimp only
    rw [b64decode_b64encode rest, @byte_eq _ a (by omega), @byte_eq _ b (by omega),
      @byte_eq _ c (by omega)]
    rfl

/-! ## The signer -/

/-- What the signer asks of the machine it runs on. -/
structure SignHost where
  paths : RepositoryPaths
  /-- the gate's path, resolved, lies in the repository -/
  gateInside : Bool
  /-- the JSON value of the gate file -/
  loadGate : Except Exn Json
  /-- `_external_path` of the private key and of the trust store -/
  externalPaths : Except Exn Unit
  /-- the JSON value of the trust store, a private file of the caller -/
  readTrust : Except Exn Json
  outputIsLink : Bool
  /-- `output_path.resolve().relative_to(root).as_posix()`; none where it lies outside -/
  relativeOutput : Option PyStr
  /-- the resolved output lies under the resolved `.sddgov/reviews` -/
  underResolvedReviews : Bool
  outputExists : Bool
  /-- `git status --porcelain` -/
  status : Except Exn PyStr
  /-- `git rev-parse --verify base^{commit}` -/
  baseSha : PyStr → Except Exn PyStr
  headSha : Except Exn PyStr
  onlyAuditChanges : Json → PyStr → Except Exn Bool
  /-- what `change_digest` hashes -/
  changeBytes : PyStr → Except Exn Bytes
  now : Instant
  /-- `secrets.token_urlsafe(18)` -/
  nonce : PyStr
  writeReceipt : Except Exn Unit
  /-- a token is text -/
  nonceShown : isBlank nonce = false
  /-- A resolved path below the repository that does not exist is spelled without a dot segment and
  leads through no link to itself. A file name may hold a backslash. -/
  resolved : ∀ path, relativeOutput = some path → outputExists = false →
    path ≠ [] ∧ (path.contains (cp 0x5C) = false → Autonomy.isRelativePath path = true)
      ∧ (pathPrefixes path).any paths.isLink = false ∧ paths.isInside path = true
        ∧ paths.resolve path = path

/-- The characters of an identifier. -/
def idCharacters : PyStr := lit "abcdefghijklmnopqrstuvwxyzABCDEFGHIJKLMNOPQRSTUVWXYZ0123456789._-"

/-- `_safe_id` -/
def safeId (value : PyStr) (label : String) : Except Exn PyStr :=
  if (strip value).isEmpty || 128 < (strip value).length
    || !(strip value).all idCharacters.contains then
    .error (.value
      (lit label ++ lit " must use 1-128 letters, numbers, dot, underscore, or hyphen"))
  else .ok (strip value)

/-- `_public_record` -/
def publicRecord (reviewerId : PyStr) (publicKey : Bytes) : Members :=
  [(lit "reviewer_id", .str reviewerId), (lit "algorithm", .str (lit "ed25519")),
    (lit "public_key", .str (b64encode publicKey)), (lit "status", .str (lit "active"))]

/-- A record of the store, checked like a record of the verifier's. -/
def storeRow? (seen : List PyStr) (row : Json) : Except Exn PyStr :=
  match reviewerRow? seen row with
  | .ok reviewerId => .ok reviewerId
  | .error e =>
    if e = valueError "trusted reviewer record has an invalid contract" then
      .error (valueError "trusted reviewer store contains an invalid reviewer record")
    else .error e

/-- The records, each with a key of 32 bytes. -/
def checkStore : List PyStr → List Json → Except Exn Unit
  | _, [] => .ok ()
  | seen, row :: rest => do
    let reviewerId ← storeRow? seen row
    let publicKey ← Autonomy.publicKeyOf row
    require ((b64decode publicKey).any fun key => key.length = 32)
      "trusted reviewer store contains an invalid public key"
    checkStore (reviewerId :: seen) rest

/-- `_load_trust`: the records. -/
def loadTrust (H : SignHost) : Except Exn (List Json) := do
  let invalid := valueError "trusted reviewer store has an invalid contract"
  let value ← H.readTrust
  match value with
  | .obj trust =>
    if !keysEq trust [lit "schema_version", lit "reviewers"]
        || !pyEq (get (lit "schema_version") trust) (.str (lit "1.0")) then .error invalid
    else
      match get (lit "reviewers") trust with
      | .arr rows => do
        checkStore [] rows
        .ok rows
      | _ => .error invalid
  | _ => .error invalid

/-- The names a gate has. -/
def gateNames : List PyStr := metadataFields ++ [lit "protected_file_review"]

/-- `timedelta(hours=value)` of a positive value. The whole hours are counted exactly; the rest of
an hour is multiplied as a double and then rounded to the microsecond. None is the `ValueError` of a
value that is no number. -/
def hoursDelta (value : PyFloat) : Option TimeDelta := do
  let v ← value.value?
  let whole := ⌊v⌋₊
  let micros ← roundRat ((v - whole) * 3600000000)
  some ((whole * 3600000000 + roundHalfEven micros.value : Nat) : Int)

/-- `value <= 0 or value > 24`, which holds of no NaN. -/
def validityOutOfRange : PyFloat → Bool
  | .nan => false
  | .inf _ => true
  | .finite neg mag => decide ((PyFloat.finite neg mag).value?.getD 0 ≤ 0
      ∨ 24 < (PyFloat.finite neg mag).value?.getD 0)

/-- `_review_binding`: the gate and the two digests. -/
def reviewBinding (C : Crypto) (H : SignHost) (baseRef : PyStr) :
    Except Exn (Members × PyStr × PyStr) := do
  let status ← H.status
  require status.isEmpty "review signing requires a clean exact-HEAD worktree"
  let value ← H.loadGate
  match value with
  | .obj gate => do
    require (keysEq gate gateNames && pyEq (get (lit "schema_version") gate) (.str (lit "1.0")))
      "merge gate has an invalid contract"
    let baseSha ← H.baseSha baseRef
    require (pyEq (get (lit "base_sha") gate) (.str baseSha))
      "merge gate base_sha does not match the independently selected base"
    let head ← H.headSha
    let onlyAudit ← H.onlyAuditChanges (get (lit "head_sha") gate) head
    require onlyAudit
      "merge gate head_sha is not the exact reviewed Head or has non-audit descendants"
    let hashed ← H.changeBytes baseRef
    require (pyEq (get (lit "change_digest") gate) (.str (C.sha256 hashed)))
      "merge gate change_digest does not match the exact executable change"
    let metadataDigest ← gateMetadataDigest C gate
    .ok (gate, C.sha256 hashed, metadataDigest)
  | _ => .error (valueError "merge gate has an invalid contract")

/-- The review that is signed. -/
def signedPayload (reviewId reviewerId : PyStr) (builderId : Json)
    (digest metadataDigest issuedAt expiresAt nonce : PyStr) :
    Members :=
  [(lit "review_id", .str reviewId), (lit "reviewer_id", .str reviewerId),
    (lit "builder_id", builderId),
    (lit "change_digest", .str digest), (lit "gate_metadata_digest", .str metadataDigest),
    (lit "verdict", .str (lit "approved")), (lit "issued_at", .str issuedAt),
    (lit "expires_at", .str expiresAt), (lit "nonce", .str nonce)]

def signedEnvelope (review : Members) (signature : PyStr) : Members :=
  [(lit "schema_version", .str (lit "1.0")), (lit "algorithm", .str (lit "ed25519")),
    (lit "review", .obj review),
    (lit "signature", .str signature)]

/-- What was signed: the gate and the digests, where the receipt lies and what it holds, and when it
expires. -/
structure Signed where
  gate : Members
  digest : PyStr
  metadataDigest : PyStr
  path : PyStr
  envelope : Members
  reviewerId : PyStr
  expires : Instant

variable (C : Crypto) (H : SignHost) (key : SigningKey C)

/-- The gate is read once before the key is. -/
def checkBuilder (reviewerId : PyStr) (gate : Json) : Except Exn Unit :=
  match gate with
  | .obj gate => require (!pyEq (get (lit "builder_id") gate) (.str reviewerId))
      "reviewer must be independent of the Builder"
  | _ => .ok ()

/-- Where the receipt goes. -/
def outputPath : Except Exn PyStr :=
  if H.outputIsLink then .error (valueError "review receipt must not be a symbolic link")
  else
    match H.relativeOutput with
    | none => .error (valueError "review receipt must stay under .sddgov/reviews")
    | some path =>
      if !H.underResolvedReviews then
        .error (valueError "review receipt must stay under .sddgov/reviews")
      else if H.outputExists then .error (.os .exists)
      else .ok path

/-- `sign_protected_review` -/
def signProtectedReview (reviewer review : PyStr) (baseRef : Option PyStr) (validHours : PyFloat)
    (approved : Bool) :
    Except Exn Signed := do
  let reviewerId ← safeId reviewer "reviewer_id"
  let reviewId ← safeId review "review_id"
  require approved "review receipt requires an explicit approved verdict"
  require (!validityOutOfRange validHours)
    "review receipt validity must be greater than 0 and at most 24 hours"
  require H.gateInside "merge gate must stay inside the repository"
  let preliminary ← H.loadGate
  checkBuilder reviewerId preliminary
  H.externalPaths
  let rows ← loadTrust H
  match rows.filter (isActiveReviewer (.str reviewerId)) with
  | [row] => do
    require (pyEq row (.obj (publicRecord reviewerId key.publicKey)))
      "private key does not match the active reviewer in the trust store"
    let path ← outputPath H
    match baseRef with
    | none =>
        .error (valueError "base_ref is required; obtain the exact Pull Request base independently")
    | some baseRef => do
      let (gate, digest, metadataDigest) ← reviewBinding C H baseRef
      require (!pyEq (get (lit "builder_id") gate) (.str reviewerId))
        "reviewer must be independent of the Builder"
      require (pyEq (get (lit "protected_file_review") gate) (.str path))
        "review receipt output does not match merge gate protected_file_review"
      match hoursDelta validHours with
      | none => .error (valueError "cannot convert float NaN to integer")
      | some delta => do
        let expires ← Autonomy.addTime H.now.second delta
        let payload := signedPayload reviewId reviewerId
          (get (lit "builder_id") gate) digest metadataDigest
          (stamp H.now.second) (Governance.isoText expires) H.nonce
        match canonical (.obj payload) with
        | none => .error (valueError "UnicodeEncodeError")
        | some message => do
          H.writeReceipt
          .ok ⟨gate, digest, metadataDigest, path, signedEnvelope payload
            (b64encode (key.sign message)), reviewerId, expires⟩
  | _ => .error (valueError "private key does not match the active reviewer in the trust store")

/-! ## What a signature guarantees -/

/-- What holds of a receipt that was signed. -/
structure SignedOk (validHours : PyFloat) (s : Signed) : Prop where
  gate : H.loadGate = .ok (.obj s.gate)
  path : H.relativeOutput = some s.path ∧ H.outputExists = false
  delta : ∃ delta, hoursDelta validHours = some delta ∧ 0 ≤ delta ∧ delta ≤ hours 24
    ∧ (s.expires.val : Int) = H.now.second.val + delta
  digests : ∃ a b, s.digest = C.sha256 a ∧ s.metadataDigest = C.sha256 b
  reviewer : isBlank s.reviewerId = false
  independent : pyEq (get (lit "builder_id") s.gate) (.str s.reviewerId) = false
  envelope : ∃ reviewId message, isBlank reviewId = false
    ∧ canonical
      (.obj (signedPayload reviewId s.reviewerId (get (lit "builder_id") s.gate) s.digest
      s.metadataDigest
        (stamp H.now.second) (Governance.isoText s.expires) H.nonce)) = some message
    ∧ s.envelope = signedEnvelope (signedPayload reviewId s.reviewerId
      (get (lit "builder_id") s.gate) s.digest
        s.metadataDigest (stamp H.now.second) (Governance.isoText s.expires) H.nonce)
          (b64encode (key.sign message))

variable {C H key}

/-- A safe id is not blank. -/
theorem safeId_ok {value v : PyStr} {label : String} (h : safeId value label = .ok v) :
    isBlank v = false := by
  unfold safeId at h
  split at h
  · cases h
  · next hvalid =>
    obtain rfl := Except.ok.inj h
    simp only [Bool.or_eq_true, not_or, Bool.not_eq_true] at hvalid
    have hne : strip value ≠ [] := by simpa using hvalid.1.1
    obtain ⟨c, rest, hcons⟩ := List.exists_cons_of_ne_nil hne
    have hall : (strip value).all idCharacters.contains = true := by simpa using hvalid.2
    rw [hcons, List.all_cons, Bool.and_eq_true] at hall
    have hspace : idCharacters.all (fun c => !isSpace c) = true := by decide
    have hc : isSpace c = false := by
      simpa using List.all_eq_true.mp hspace c (List.contains_iff_mem.mp hall.1)
    rw [hcons, isBlank, List.all_cons, hc]
    rfl

/-- The rest of an hour is at most an hour, also after it is multiplied as a double. -/
theorem micros_le_hour {fraction : ℚ} {micros : Magnitude} (h0 : 0 ≤ fraction) (h1 : fraction < 1)
    (h : roundRat (fraction * 3600000000) = some micros) :
    roundHalfEven micros.value ≤ 3600000000 := by
  have hv : 0 ≤ fraction * 3600000000 := by positivity
  refine roundHalfEven_le ?_ micros.value_nonneg
  rcases hv.eq_or_lt with hzero | hpos
  · rw [← hzero, roundRat, if_pos rfl] at h
    rw [← Option.some.inj h]
    norm_num [Magnitude.value, Magnitude.zero]
  · have hlog : Int.log 2 (fraction * 3600000000) < 32 :=
      (Int.lt_zpow_iff_log_lt (by norm_num) hpos).mp (by norm_num; linarith)
    have hexp : max expMin (Int.log 2 (fraction * 3600000000) - 52) ≤ -21 := by
      unfold expMin
      omega
    have hulp : (2 : ℚ) ^ max expMin (Int.log 2 (fraction * 3600000000) - 52) ≤ 1 / 4 :=
      le_trans (zpow_le_zpow_right₀ (by norm_num) hexp) (by norm_num)
    have hle := roundRat_le h hv
    push_cast
    linarith

/-- A validity within the range is a time between nothing and a day. -/
theorem hoursDelta_bounds {value : PyFloat} {delta : TimeDelta}
    (hrange : validityOutOfRange value = false)
    (h : hoursDelta value = some delta) : 0 ≤ delta ∧ delta ≤ hours 24 := by
  cases value with
  | nan => cases h
  | inf neg => cases h
  | finite neg mag =>
    unfold hoursDelta at h
    simp only [Option.bind_eq_bind, Option.bind_eq_some_iff] at h
    obtain ⟨v, hv, micros, hmicros, h⟩ := h
    rw [validityOutOfRange, hv, Option.getD_some, decide_eq_false_iff_not, not_or, not_le, not_lt]
      at hrange
    have hfloor := Nat.floor_le hrange.1.le
    have hround := micros_le_hour (sub_nonneg.mpr hfloor)
      (by linarith [Nat.lt_floor_add_one v]) hmicros
    rw [← Option.some.inj h]
    refine ⟨Int.natCast_nonneg _, ?_⟩
    show ((⌊v⌋₊ * 3600000000 + roundHalfEven micros.value : Nat) : Int) ≤ 24 * 3600000000
    by_cases hwhole : ⌊v⌋₊ < 24
    · omega
    · -- the longest validity has no rest
      have heq : v = 24 := by
        have hcast : ((24 : Nat) : ℚ) ≤ ⌊v⌋₊ := Nat.cast_le.mpr (Nat.le_of_not_lt hwhole)
        push_cast at hcast
        linarith
      have hzero : (v - ⌊v⌋₊) * 3600000000 = 0 := by
        rw [heq, show ⌊(24 : ℚ)⌋₊ = 24 from Nat.floor_natCast 24]
        norm_num
      rw [hzero, roundRat, if_pos rfl] at hmicros
      have hnone : roundHalfEven micros.value = 0 := by
        rw [← Option.some.inj hmicros, show Magnitude.zero.value = ((0 : Nat) : ℚ) by
          simp [Magnitude.value, Magnitude.zero], roundHalfEven_natCast]
      rw [hnone, heq, show ⌊(24 : ℚ)⌋₊ = 24 from Nat.floor_natCast 24]
      norm_num

/-- The binding is made of the gate on disk, and its digests are digests. -/
theorem reviewBinding_ok {baseRef : PyStr} {gate : Members} {digest metadataDigest : PyStr}
    (h : reviewBinding C H baseRef = .ok (gate, digest, metadataDigest)) :
    H.loadGate = .ok (.obj gate) ∧ ∃ a b, digest = C.sha256 a ∧ metadataDigest = C.sha256 b := by
  obtain ⟨status, -, h⟩ := except_bind_ok.mp h
  obtain ⟨_, -, h⟩ := except_bind_ok.mp h
  obtain ⟨value, hvalue, h⟩ := except_bind_ok.mp h
  split at h
  · next loaded =>
    obtain ⟨_, -, h⟩ := except_bind_ok.mp h
    obtain ⟨baseSha, -, h⟩ := except_bind_ok.mp h
    obtain ⟨_, -, h⟩ := except_bind_ok.mp h
    obtain ⟨head, -, h⟩ := except_bind_ok.mp h
    obtain ⟨onlyAudit, -, h⟩ := except_bind_ok.mp h
    obtain ⟨_, -, h⟩ := except_bind_ok.mp h
    obtain ⟨hashed, -, h⟩ := except_bind_ok.mp h
    obtain ⟨_, -, h⟩ := except_bind_ok.mp h
    obtain ⟨metadata, hmetadata, h⟩ := except_bind_ok.mp h
    obtain ⟨rfl, rfl, rfl⟩ : loaded = gate ∧ C.sha256 hashed = digest
      ∧ metadata = metadataDigest := by
      simpa only [Except.ok.injEq, Prod.mk.injEq] using h
    refine ⟨hvalue, hashed, ?_⟩
    unfold gateMetadataDigest at hmetadata
    dsimp only at hmetadata
    split at hmetadata
    · split at hmetadata
      · next bytes hbytes => exact ⟨bytes, rfl, (Except.ok.inj hmetadata).symm⟩
      · cases hmetadata
    · cases hmetadata
  · cases h

/-- The output is a new file inside the repository. -/
theorem outputPath_ok {path : PyStr} (h : outputPath H = .ok path) :
    H.relativeOutput = some path ∧ H.outputExists = false := by
  unfold outputPath at h
  split at h
  · cases h
  split at h
  · cases h
  next found hfound =>
  split at h
  · cases h
  split at h
  · cases h
  next hexists =>
  obtain rfl := Except.ok.inj h
  exact ⟨hfound, by simpa using hexists⟩

/-- Adding a duration to an instant within the calendar. -/
theorem addTime_ok {t u : Instant} {delta : TimeDelta} (h : Autonomy.addTime t delta = .ok u) :
    (u.val : Int) = t.val + delta := by
  unfold Autonomy.addTime Instant.add? Instant.ofInt? at h
  split at h
  · cases h
  · next found hfound =>
    obtain rfl := Except.ok.inj h
    split at hfound
    · next hbounds =>
      obtain rfl := Option.some.inj hfound
      exact Int.toNat_of_nonneg hbounds.1
    · cases hfound

/-- What the signer has been through. -/
theorem signedOk_of_ok {reviewer review : PyStr} {baseRef : Option PyStr} {validHours : PyFloat}
    {approved : Bool}
    {s : Signed} (h : signProtectedReview C H key reviewer review baseRef validHours
      approved = .ok s) :
    SignedOk C H key validHours s := by
  obtain ⟨reviewerId, hreviewer, h⟩ := except_bind_ok.mp h
  obtain ⟨reviewId, hreview, h⟩ := except_bind_ok.mp h
  obtain ⟨_, -, h⟩ := except_bind_ok.mp h
  obtain ⟨_, hrange, h⟩ := except_bind_ok.mp h
  obtain ⟨_, -, h⟩ := except_bind_ok.mp h
  obtain ⟨preliminary, -, h⟩ := except_bind_ok.mp h
  obtain ⟨_, -, h⟩ := except_bind_ok.mp h
  obtain ⟨_, -, h⟩ := except_bind_ok.mp h
  obtain ⟨rows, -, h⟩ := except_bind_ok.mp h
  split at h
  · next row hrow =>
    obtain ⟨_, -, h⟩ := except_bind_ok.mp h
    obtain ⟨path, hpath, h⟩ := except_bind_ok.mp h
    split at h
    · cases h
    next base =>
    obtain ⟨⟨gate, digest, metadataDigest⟩, hbinding, h⟩ := except_bind_ok.mp h
    obtain ⟨_, hbuilder, h⟩ := except_bind_ok.mp h
    obtain ⟨_, -, h⟩ := except_bind_ok.mp h
    split at h
    · cases h
    next delta hdelta =>
    obtain ⟨expires, hexpires, h⟩ := except_bind_ok.mp h
    dsimp only at h
    split at h
    · cases h
    next message hmessage =>
    obtain ⟨_, -, h⟩ := except_bind_ok.mp h
    obtain rfl := Except.ok.inj h
    obtain ⟨hgate, hdigests⟩ := reviewBinding_ok hbinding
    rw [require_ok, Bool.not_eq_true'] at hrange hbuilder
    have hbounds := hoursDelta_bounds hrange hdelta
    exact ⟨hgate, outputPath_ok hpath, ⟨delta, hdelta, hbounds.1, hbounds.2, addTime_ok hexpires⟩,
      hdigests,
      safeId_ok hreviewer, hbuilder, reviewId, message, safeId_ok hreview, hmessage, rfl⟩
  · cases h

end SddGov.MergeGate
