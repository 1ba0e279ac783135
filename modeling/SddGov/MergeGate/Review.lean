import SddGov.Autonomy.SingleUse
import SddGov.Autonomy.PlainDecision
import SddGov.MergeGate.RawEvidence
import SddGov.Python.JsonText

/-!
# Review receipts

A change to a protected file needs the receipt of an independent review.
`_verify_review_receipt` compares its `gate_metadata_digest` with the digest of
the eight fields of the gate that decide the verification, so a receipt goes
with one value of each of them (`receipt_fields`). By the time the digest is
taken the gate has been checked and holds nothing but text, which is why
`json.dumps` with its names for non-finite floats (`dumpsNan`) writes the
canonical form.
-/

namespace SddGov.MergeGate

open SddGov.Python SddGov.Git

/-! ## Canonical text -/

/-- A float that is no number has a name. -/
def floatName : PyFloat → PyStr
  | .nan => lit "NaN"
  | .inf neg => if neg then lit "-Infinity" else lit "Infinity"
  | .finite neg mag => floatText neg mag

mutual
/-- `json.dumps(value, ensure_ascii=False, sort_keys=True, separators=(",", ":"))`. -/
def dumpsNan : Json → Option PyStr
  | .null => some (lit "null")
  | .bool true => some (lit "true")
  | .bool false => some (lit "false")
  | .int n => if maxStrDigits < (natText n.natAbs).length then none else some (intText n)
  | .float x => some (floatName x)
  | .str s => some (stringText s)
  | .arr xs => (dumpsNanList xs).map fun ts => lit "[" ++ joinComma ts ++ lit "]"
  | .obj m => (dumpsNanMembers m).map fun ts =>
      lit "\x7b" ++ joinComma ((sortMembers ts).map memberText) ++ lit "\x7d"

def dumpsNanList : List Json → Option (List PyStr)
  | [] => some []
  | x :: xs =>
    match dumpsNan x, dumpsNanList xs with
    | some t, some ts => some (t :: ts)
    | _, _ => none

def dumpsNanMembers : List (PyStr × Json) → Option (List (PyStr × PyStr))
  | [] => some []
  | (k, v) :: rest =>
    match dumpsNan v, dumpsNanMembers rest with
    | some t, some ts => some ((k, t) :: ts)
    | _, _ => none
end

mutual
/-- Where every float is a number, both forms are the same. -/
theorem dumpsNan_of_dumps (v : Json) {t : PyStr} (h : dumps v = some t) : dumpsNan v = some t := by
  cases v with
  | null => exact h
  | bool b => cases b <;> exact h
  | int n => exact h
  | float x =>
    cases x with
    | finite neg mag => exact h
    | nan => exact absurd h (by simp [dumps])
    | inf neg => exact absurd h (by simp [dumps])
  | str s => exact h
  | arr xs =>
    rw [dumps] at h
    obtain ⟨ts, hts, rfl⟩ := Option.map_eq_some_iff.mp h
    rw [dumpsNan, dumpsNanList_of_dumps xs hts]
    rfl
  | obj m =>
    rw [dumps] at h
    obtain ⟨ts, hts, rfl⟩ := Option.map_eq_some_iff.mp h
    rw [dumpsNan, dumpsNanMembers_of_dumps m hts]
    rfl

/-- What the strict writer writes, the lenient one writes too. -/
theorem dumpsNanList_of_dumps (xs : List Json) {ts : List PyStr} (h : dumpsList xs = some ts) :
    dumpsNanList xs = some ts := by
  cases xs with
  | nil => exact h
  | cons x xs =>
    rw [dumpsList] at h
    split at h
    · next t us ht hus =>
      rw [dumpsNanList, dumpsNan_of_dumps x ht, dumpsNanList_of_dumps xs hus]
      exact h
    · exact absurd h (by simp)

/-- The same for the members of an object. -/
theorem dumpsNanMembers_of_dumps (m : List (PyStr × Json)) {ts : List (PyStr × PyStr)}
    (h : dumpsMembers m = some ts) : dumpsNanMembers m = some ts := by
  cases m with
  | nil => exact h
  | cons kv m =>
    obtain ⟨k, v⟩ := kv
    rw [dumpsMembers] at h
    split at h
    · next t us ht hus =>
      rw [dumpsNanMembers, dumpsNan_of_dumps v ht, dumpsNanMembers_of_dumps m hus]
      exact h
    · exact absurd h (by simp)
end

/-- `_canonical`; `none` is a `ValueError` or a `UnicodeEncodeError`. -/
def canonical (v : Json) : Option Bytes := (dumpsNan v).bind utf8Encode

/-! ## The digest of the gate -/

/-- The fields the review is bound to. -/
def metadataFields : List PyStr :=
  ["schema_version", "base_sha", "head_sha", "risk_level", "builder_id", "change_digest", "deps",
    "rollback_path"].map lit

def gateMetadata (gate : Members) : Members := metadataFields.map fun key => (key, get key gate)

/-- `gate_metadata_digest`. -/
def gateMetadataDigest (C : Crypto) (gate : Members) : Except Exn PyStr :=
  let missing := metadataFields.filter fun key => !hasKey key gate
  if missing.isEmpty then
    match canonical (.obj (gateMetadata gate)) with
    | some bytes => .ok (C.sha256 bytes)
    | none => .error (valueError "canonical JSON")
  else .error (.value (lit "merge gate metadata is missing: " ++ joinTexts (lit ", ") missing))

/-! ## Paths -/

/-- What the path checks ask the file system, by paths relative to the repository. -/
structure RepositoryPaths where
  isLink : PyStr → Bool
  /-- `Path.resolve` -/
  resolve : PyStr → PyStr
  /-- the resolved path lies in the repository -/
  isInside : PyStr → Bool

/-- The paths of the directories above a path, and the path. -/
def pathPrefixes (path : PyStr) : List PyStr :=
  (List.range (Autonomy.pathParts path).length).map fun n =>
    joinTexts (lit "/") ((Autonomy.pathParts path).take (n + 1))

/-- `_bounded_repository_path`. -/
def boundedRepositoryPath (F : RepositoryPaths) (relative : Json) (label : PyStr) :
    Except Exn PyStr :=
  match relative with
  | .str path =>
    if path.isEmpty || path.contains (cp 0x5C) then
      .error (.value (label ++ lit " path is invalid"))
    else if !Autonomy.isRelativePath path then
      .error (.value (label ++ lit " path escapes or is not normalized"))
    else if (pathPrefixes path).any F.isLink then
      .error (.value (label ++ lit " path contains a symlink"))
    else if !F.isInside (F.resolve path) then .error
      (.value (label ++ lit " path escapes the repository"))
    else .ok (F.resolve path)
  | _ => .error (.value (label ++ lit " path is invalid"))

/-! ## The receipt -/

/-- What the review asks beside the gate. -/
structure ReviewHost where
  paths : RepositoryPaths
  /-- the path lies under `.sddgov/reviews` -/
  isUnderReviews : PyStr → Bool
  /-- `_load_json` -/
  loadReceipt : PyStr → Except Exn Members
  now : Instant
  /-- `_trusted_reviewers` -/
  trustedReviewers : PyStr → Except Exn Members

def reviewFields : List PyStr :=
  ["review_id", "reviewer_id", "builder_id", "change_digest", "gate_metadata_digest", "verdict",
    "issued_at",
    "expires_at", "nonce"].map lit

/-- The review and the signature of an envelope. -/
def readReview (envelope : Members) : Except Exn (Members × PyStr) :=
  let invalid := valueError "protected-file review receipt has an invalid contract"
  if keysEq envelope (["schema_version", "algorithm", "review", "signature"].map lit)
      && pyEq (get (lit "schema_version") envelope) (.str (lit "1.0"))
      && pyEq (get (lit "algorithm") envelope) (.str (lit "ed25519")) then
    match get (lit "review") envelope, get (lit "signature") envelope with
    | .obj review, .str signature =>
      if keysEq review reviewFields && reviewFields.all fun key =>
        (text? (get key review)).isSome then
        .ok (review, signature)
      else .error (valueError "protected-file review payload has an invalid contract")
    | _, _ => .error invalid
  else .error invalid

/-- `_parse_time`. -/
def reviewTime (value : Json) (field : String) : Except Exn Instant :=
  let invalid := Exn.value (lit "review receipt " ++ lit field
    ++ lit " must be an RFC3339 timestamp")
  match value with
  | .str s =>
    match fromisoformat (Governance.replaceZulu s) with
    | none => .error invalid
    | some p =>
      match p.offset with
      | none =>
          .error (.value (lit "review receipt " ++ lit field ++ lit " must include a timezone"))
      | some offset =>
        match Instant.ofInt? (p.micros offset) with
        | none => .error .overflow
        | some t => .ok t
  | _ => .error invalid

/-- The window of the review. -/
def checkReviewWindow (now : Instant) (review : Members) : Except Exn Unit := do
  let issuedAt ← reviewTime (get (lit "issued_at") review) "issued_at"
  let expiresAt ← reviewTime (get (lit "expires_at") review) "expires_at"
  let latest ← Autonomy.addTime now (minutes 5)
  require (issuedAt.val ≤ latest.val && now.val < expiresAt.val && issuedAt.val < expiresAt.val)
    "protected-file review receipt is not currently valid"
  require ((expiresAt.val : Int) - issuedAt.val ≤ hours 24)
    "protected-file review validity exceeds 24 hours"

/-- One record of the trusted reviewers: its id. -/
def reviewerRow? (seen : List PyStr) (row : Json) : Except Exn PyStr :=
  let invalid := valueError "trusted reviewer record has an invalid contract"
  match row with
  | .obj m =>
    if !keysEq m (["reviewer_id", "algorithm", "public_key", "status"].map lit) then .error invalid
    else
      match text? (get (lit "reviewer_id") m) with
      | none => .error invalid
      | some reviewerId =>
        if !pyEq (get (lit "algorithm") m) (.str (lit "ed25519")) then .error invalid
        else do
          let known ← memberOfSet (get (lit "status") m) [lit "active", lit "revoked"]
          match known, get (lit "public_key") m with
          | true, .str _ =>
            if seen.contains reviewerId then
              .error (valueError "trusted reviewer store contains duplicate reviewer_id")
            else .ok reviewerId
          | _, _ => .error invalid
  | _ => .error invalid

/-- The records of the store, each with an id of its own. -/
def checkReviewers : List PyStr → List Json → Except Exn Unit
  | _, [] => .ok ()
  | seen, row :: rest => do
    let reviewerId ← reviewerRow? seen row
    checkReviewers (reviewerId :: seen) rest

/-- The record of an active reviewer. -/
def isActiveReviewer (reviewerId : Json) : Json → Bool
  | .obj m => pyEq (get (lit "reviewer_id") m) reviewerId
      && pyEq (get (lit "status") m) (.str (lit "active"))
  | _ => false

/-- The public key of the only active reviewer with this id. -/
def reviewerKey (trust : Members) (reviewerId : Json) : Except Exn PyStr :=
  let invalid := valueError "trusted reviewer store has an invalid contract"
  if !keysEq trust [lit "schema_version", lit "reviewers"]
      || !pyEq (get (lit "schema_version") trust) (.str (lit "1.0")) then .error invalid
  else
    match get (lit "reviewers") trust with
    | .arr rows => do
      checkReviewers [] rows
      match rows.filter (isActiveReviewer reviewerId) with
      | [reviewer] => Autonomy.publicKeyOf reviewer
      | _ => .error (valueError "review signer is not a unique active trusted reviewer")
    | _ => .error invalid

/-- The signature of the review. -/
def checkReviewSignature (C : Crypto) (publicKey signature : PyStr) (review : Members) :
    Except Exn Unit :=
  match b64decode publicKey, b64decode signature, canonical (.obj review) with
  | some key, some sig, some message =>
    require (key.length = 32 && C.verifies key sig message)
      "protected-file review signature verification failed"
  | _, _, _ => .error (valueError "protected-file review signature verification failed")

/-- `_verify_review_receipt`. -/
def verifyReviewReceipt (C : Crypto) (H : ReviewHost) (relative : PyStr) (builderId : Json)
    (digest metadataDigest : PyStr) (trust : Members) : Except Exn Members := do
  let path ← boundedRepositoryPath H.paths (.str relative) (lit "review receipt")
  require (H.isUnderReviews path) "review receipt must stay under .sddgov/reviews"
  let envelope ← H.loadReceipt path
  let (review, signature) ← readReview envelope
  require (pyEq (get (lit "builder_id") review) builderId
    && !pyEq (get (lit "reviewer_id") review) builderId)
    "protected-file review is not independent of the Builder"
  require (pyEq (get (lit "change_digest") review) (.str digest)
      && pyEq (get (lit "gate_metadata_digest") review) (.str metadataDigest)
      && pyEq (get (lit "verdict") review) (.str (lit "approved")))
    "protected-file review does not approve the exact executable change"
  checkReviewWindow H.now review
  let publicKey ← reviewerKey trust (get (lit "reviewer_id") review)
  checkReviewSignature C publicKey signature review
  .ok review

/-- The call of `verify_merge`: the reviewer. -/
def reviewOf (C : Crypto) (H : ReviewHost) (relative : PyStr) (builderId : Json) (digest : PyStr)
    (gate : Members) (baseRef : PyStr) : Except Exn Json := do
  let metadataDigest ← gateMetadataDigest C gate
  let trust ← H.trustedReviewers baseRef
  let review ← verifyReviewReceipt C H relative builderId digest metadataDigest trust
  .ok (get (lit "reviewer_id") review)

/-! ## A gate with a receipt -/

/-- `verify_merge` accepts this gate, whose review is the receipt in this envelope. -/
structure VerifiesWith (C : Crypto) (M : MergeHost) (H : ReviewHost) (baseRef gatePath : PyStr)
    (runChecks : Bool)
    (gate envelope : Members) : Prop where
  /-- the host's path checks and review are the modelled ones -/
  paths : M.boundedPath = boundedRepositoryPath H.paths
  review : M.verifyReview = reviewOf C H
  loaded : M.loadGate gatePath = .ok gate
  /-- the gate names a receipt, and the envelope is what lies there -/
  receipt : ∃ relative path, get (lit "protected_file_review") gate = .str relative
    ∧ boundedRepositoryPath H.paths (.str relative) (lit "review receipt") = .ok path
    ∧ H.loadReceipt path = .ok envelope
  verified : ∃ result, verifyMerge M C baseRef gatePath runChecks = .ok result

/-- A value made of text. -/
def IsText : Json → Prop
  | .str _ => True
  | .arr xs => ∀ x ∈ xs, ∃ s, x = .str s
  | _ => False

/-- A text is written. -/
theorem IsText.dumps {v : Json} (h : IsText v) : (dumps v).isSome = true := by
  cases v with
  | str s => rfl
  | arr xs =>
    have hall : ∀ xs : List Json, (∀ x ∈ xs, ∃ s, x = .str s) → (dumpsList xs).isSome = true := by
      intro xs hxs
      induction xs with
      | nil => rfl
      | cons x xs ih =>
        obtain ⟨s, rfl⟩ := hxs x (List.mem_cons_self ..)
        obtain ⟨ts, hts⟩ := Option.isSome_iff_exists.mp
          (ih fun y hy => hxs y (List.mem_cons_of_mem _ hy))
        rw [dumpsList, hts]
        rfl
    obtain ⟨ts, hts⟩ := Option.isSome_iff_exists.mp (hall xs h)
    rw [Python.dumps, hts]
    rfl
  | _ => exact absurd h (by simp [IsText])

/-- A text is its own canonical form. -/
theorem IsText.canon {v : Json} (h : IsText v) : canon v = v := by
  cases v with
  | str s => rfl
  | arr xs =>
    have hmap : xs.map Python.canon = xs := by
      conv_rhs => rw [← List.map_id xs]
      apply List.map_congr_left
      intro x hx
      obtain ⟨s, rfl⟩ := h x hx
      rfl
    rw [Python.canon, canonList_eq, hmap]
  | _ => exact absurd h (by simp [IsText])

/-- Members are written if their values are. -/
theorem dumpsMembers_isSome {m : Members} (h : ∀ kv ∈ m, (dumps kv.2).isSome = true) :
    (dumpsMembers m).isSome = true := by
  induction m with
  | nil => rfl
  | cons kv m ih =>
    obtain ⟨k, v⟩ := kv
    obtain ⟨t, ht⟩ := Option.isSome_iff_exists.mp (h (k, v) (List.mem_cons_self ..))
    obtain ⟨ts, hts⟩ := Option.isSome_iff_exists.mp (ih fun q hq => h q (List.mem_cons_of_mem _ hq))
    rw [dumpsMembers]
    simp only at ht
    rw [ht, hts]
    rfl

/-- The metadata of a gate of text has one canonical form. -/
theorem canonical_metadata {gate : Members} (h : ∀ key ∈ metadataFields, IsText (get key gate)) :
    canonical (.obj (gateMetadata gate)) = canonicalBytes (.obj (gateMetadata gate)) := by
  have hmembers : (dumpsMembers (gateMetadata gate)).isSome = true := by
    apply dumpsMembers_isSome
    intro kv hkv
    obtain ⟨key, hkey, rfl⟩ := List.mem_map.mp hkv
    exact (h key hkey).dumps
  obtain ⟨ts, hts⟩ := Option.isSome_iff_exists.mp hmembers
  have hdumps : dumps (.obj (gateMetadata gate))
      = some (lit "\x7b" ++ joinComma ((sortMembers ts).map memberText) ++ lit "\x7d") := by
    rw [dumps, hts]
    rfl
  unfold canonical canonicalBytes
  rw [dumpsNan_of_dumps _ hdumps, hdumps]

/-- Gates of text with one canonical metadata have equal fields. -/
theorem metadata_inj {gate gate' : Members} (h : ∀ key ∈ metadataFields, IsText (get key gate))
    (h' : ∀ key ∈ metadataFields, IsText (get key gate')) {b : Bytes}
    (hb : canonical (.obj (gateMetadata gate)) = some b)
    (hb' : canonical (.obj (gateMetadata gate')) = some b) :
    ∀ key ∈ metadataFields, get key gate = get key gate' := by
  rw [canonical_metadata h] at hb
  rw [canonical_metadata h'] at hb'
  have hcanon := canonicalBytes_inj hb hb'
  rw [canon, canon, Json.obj.injEq, canonMembers_eq, canonMembers_eq] at hcanon
  intro key hkey
  have hmem : (key, canon (get key gate)) ∈ sortMembers
    ((gateMetadata gate).map fun kv => (kv.1, canon kv.2)) := by
    rw [mem_sortMembers]
    exact List.mem_map.mpr ⟨(key, get key gate), List.mem_map.mpr ⟨key, hkey, rfl⟩, rfl⟩
  rw [hcanon, mem_sortMembers] at hmem
  obtain ⟨kv, hkv, heq⟩ := List.mem_map.mp hmem
  obtain ⟨key', -, rfl⟩ := List.mem_map.mp hkv
  obtain ⟨rfl, hvalue⟩ := Prod.mk.inj heq
  dsimp only at hvalue
  rw [(h' _ hkey).canon, (h _ hkey).canon] at hvalue
  exact hvalue.symm

/-! ## What a verified gate holds -/

theorem isText_of_str {v : Json} {s : PyStr} (h : v = .str s) : IsText v := by
  rw [h]
  trivial

theorem memberOfSet_true {v : Json} {names : List PyStr} (h : memberOfSet v names = .ok true) :
    ∃ s, v = .str s := by
  cases v with
  | str s => exact ⟨s, rfl⟩
  | arr xs => exact absurd h (by simp [memberOfSet])
  | obj m => exact absurd h (by simp [memberOfSet])
  | _ => exact absurd h (by simp [memberOfSet])

/-- The fields that the first check compares are texts. -/
theorem checkGate_text {gate : Members} {baseSha reviewed : PyStr}
    (h : checkGate gate baseSha = .ok reviewed) :
    IsText (get (lit "schema_version") gate) ∧ IsText (get (lit "risk_level") gate)
      ∧ IsText (get (lit "base_sha") gate) ∧ IsText (get (lit "head_sha") gate) := by
  obtain ⟨_, hcontract, h⟩ := except_bind_ok.mp h
  obtain ⟨risk, hrisk, h⟩ := except_bind_ok.mp h
  obtain ⟨_, hknown, h⟩ := except_bind_ok.mp h
  obtain ⟨_, hbase, hlast⟩ := except_bind_ok.mp h
  rw [require_ok, Bool.and_eq_true] at hcontract
  rw [require_ok] at hknown hbase
  subst hknown
  obtain ⟨level, hlevel⟩ := memberOfSet_true hrisk
  refine ⟨isText_of_str ((pyEq_str_right _ _).mp hcontract.2), isText_of_str hlevel,
    isText_of_str ((pyEq_str_right _ _).mp hbase), ?_⟩
  split at hlast
  · exact absurd hlast (by simp)
  · next s hs => exact isText_of_str (eq_of_text? hs)

/-- What has paths of dependencies is a text. -/
theorem depPaths_text {v : Json} {paths : List PyStr} (h : depPaths v = some paths) : IsText v := by
  cases v with
  | arr items =>
    show ∀ x ∈ items, ∃ s, x = .str s
    unfold depPaths at h
    dsimp only at h
    induction items generalizing paths with
    | nil => simp
    | cons x items ih =>
      rw [List.mapM_cons] at h
      obtain ⟨path, hpath, h⟩ := Option.bind_eq_some_iff.mp h
      obtain ⟨rest, hrest, -⟩ := Option.bind_eq_some_iff.mp h
      intro y hy
      rcases List.mem_cons.mp hy with rfl | hy
      · cases y with
        | str s => exact ⟨s, rfl⟩
        | _ => exact absurd hpath (by simp)
      · exact ih hrest y hy
  | _ => exact absurd h (by simp [depPaths])

theorem checkDeps_text {M : MergeHost} {gate : Members} {deps : List PyStr}
    (h : checkDeps M gate = .ok deps) :
    IsText (get (lit "deps") gate) := by
  unfold checkDeps at h
  split at h
  · exact absurd h (by simp)
  · next paths hpaths => exact depPaths_text hpaths

theorem boundedRepositoryPath_text {F : RepositoryPaths} {v : Json} {label path : PyStr}
    (h : boundedRepositoryPath F v label = .ok path) : IsText v := by
  cases v with
  | str s => trivial
  | _ => exact absurd h (by simp [boundedRepositoryPath])

theorem checkRollback_text {M : MergeHost} {F : RepositoryPaths}
    (hpaths : M.boundedPath = boundedRepositoryPath F)
    {gate : Members} {headSha baseSha : PyStr} {rollback : Fields}
    (h : checkRollback M gate headSha baseSha = .ok rollback) :
    IsText (get (lit "rollback_path") gate) := by
  obtain ⟨record, hrecord, -⟩ := except_bind_ok.mp h
  obtain ⟨path, hpath, -⟩ := except_bind_ok.mp hrecord
  rw [hpaths] at hpath
  exact boundedRepositoryPath_text hpath

/-- A review that is named is the one that was verified. -/
theorem checkReview_receipt {M : MergeHost} {gate : Members} {baseRef digest relative : PyStr}
    {changed : Bool}
    {reviewer : Json} (hreview : get (lit "protected_file_review") gate = .str relative)
    (h : checkReview M gate baseRef digest changed = .ok reviewer) :
    M.verifyReview relative (get (lit "builder_id") gate) digest gate baseRef = .ok reviewer := by
  unfold checkReview at h
  rw [hreview] at h
  cases changed with
  | false => exact absurd h (by simp)
  | true =>
    simp only [if_true] at h
    split at h
    · exact absurd h (by simp)
    · exact h

/-- An accepted receipt states the digest it was asked for. -/
theorem verifyReviewReceipt_ok {C : Crypto} {H : ReviewHost} {relative path : PyStr}
    {builderId : Json}
    {digest metadataDigest : PyStr} {trust review envelope : Members}
    (hpath : boundedRepositoryPath H.paths (.str relative) (lit "review receipt") = .ok path)
    (henvelope : H.loadReceipt path = .ok envelope)
    (h : verifyReviewReceipt C H relative builderId digest metadataDigest trust = .ok review) :
    ∃ payload signature, readReview envelope = .ok (payload, signature)
      ∧ get (lit "gate_metadata_digest") payload = .str metadataDigest := by
  obtain ⟨path', hpath', h⟩ := except_bind_ok.mp h
  obtain ⟨_, -, h⟩ := except_bind_ok.mp h
  obtain ⟨envelope', henvelope', h⟩ := except_bind_ok.mp h
  obtain ⟨⟨payload, signature⟩, hread, h⟩ := except_bind_ok.mp h
  obtain ⟨_, -, h⟩ := except_bind_ok.mp h
  obtain ⟨_, happroves, h⟩ := except_bind_ok.mp h
  rw [hpath] at hpath'
  obtain rfl := Except.ok.inj hpath'
  rw [henvelope] at henvelope'
  obtain rfl := Except.ok.inj henvelope'
  rw [require_ok, Bool.and_eq_true, Bool.and_eq_true] at happroves
  exact ⟨payload, signature, hread, (pyEq_str_right _ _).mp happroves.1.2⟩

/-- What a gate that verifies with a receipt has been through: its fields are text, and the receipt
states the digest of their canonical form. -/
theorem VerifiesWith.metadata {C : Crypto} {M : MergeHost} {H : ReviewHost}
    {baseRef gatePath : PyStr}
    {runChecks : Bool} {gate envelope : Members}
    (h : VerifiesWith C M H baseRef gatePath runChecks gate envelope) :
    (∀ key ∈ metadataFields, IsText (get key gate))
      ∧ ∃ payload signature bytes, readReview envelope = .ok (payload, signature)
        ∧ canonical (.obj (gateMetadata gate)) = some bytes
        ∧ get (lit "gate_metadata_digest") payload = .str (C.sha256 bytes) := by
  obtain ⟨relative, path, hrelative, hpath, henvelope⟩ := h.receipt
  obtain ⟨result, hresult⟩ := h.verified
  obtain ⟨_, -, hrest⟩ := except_bind_ok.mp hresult
  obtain ⟨_, -, hrest⟩ := except_bind_ok.mp hrest
  obtain ⟨_, -, hrest⟩ := except_bind_ok.mp hrest
  obtain ⟨_, -, hrest⟩ := except_bind_ok.mp hrest
  obtain ⟨loaded, hloaded, hrest⟩ := except_bind_ok.mp hrest
  rw [h.loaded] at hloaded
  obtain rfl := Except.ok.inj hloaded
  obtain ⟨reviewed, hgate, hrest⟩ := except_bind_ok.mp hrest
  obtain ⟨_, -, hrest⟩ := except_bind_ok.mp hrest
  obtain ⟨_, -, hrest⟩ := except_bind_ok.mp hrest
  obtain ⟨_, hbuilder, hrest⟩ := except_bind_ok.mp hrest
  obtain ⟨digest, -, hrest⟩ := except_bind_ok.mp hrest
  obtain ⟨_, hdigest, hrest⟩ := except_bind_ok.mp hrest
  obtain ⟨deps, hdeps, hrest⟩ := except_bind_ok.mp hrest
  obtain ⟨rollback, hrollback, hrest⟩ := except_bind_ok.mp hrest
  obtain ⟨_, -, hrest⟩ := ite_bind_ok.mp hrest
  obtain ⟨_, -, hrest⟩ := except_bind_ok.mp hrest
  obtain ⟨_, -, hrest⟩ := except_bind_ok.mp hrest
  obtain ⟨_, -, hrest⟩ := except_bind_ok.mp hrest
  obtain ⟨_, -, hrest⟩ := except_bind_ok.mp hrest
  obtain ⟨changed, -, hrest⟩ := except_bind_ok.mp hrest
  obtain ⟨patterns, -, hrest⟩ := ite_bind_ok.mp hrest
  obtain ⟨reviewer, hreviewer, -⟩ := except_bind_ok.mp hrest
  have hverified := checkReview_receipt hrelative hreviewer
  rw [h.review] at hverified
  obtain ⟨metadataDigest, hmetadata, hverified⟩ := except_bind_ok.mp hverified
  obtain ⟨trust, -, hverified⟩ := except_bind_ok.mp hverified
  obtain ⟨review, hreview, -⟩ := except_bind_ok.mp hverified
  obtain ⟨payload, signature, hread, hstated⟩ := verifyReviewReceipt_ok hpath henvelope hreview
  have hcanonical : ∃ bytes, canonical (.obj (gateMetadata gate)) = some bytes
      ∧ metadataDigest = C.sha256 bytes := by
    unfold gateMetadataDigest at hmetadata
    dsimp only at hmetadata
    split at hmetadata
    · split at hmetadata
      · next bytes hbytes => exact ⟨bytes, hbytes, (Except.ok.inj hmetadata).symm⟩
      · exact absurd hmetadata (by simp)
    · exact absurd hmetadata (by simp)
  obtain ⟨bytes, hbytes, rfl⟩ := hcanonical
  obtain ⟨hschema, hrisk, hbase, hhead⟩ := checkGate_text hgate
  have hbuilderText : IsText (get (lit "builder_id") gate) := by
    rw [require_ok] at hbuilder
    obtain ⟨s, hs⟩ := Option.isSome_iff_exists.mp hbuilder
    exact isText_of_str (eq_of_text? hs)
  have hdigestText : IsText (get (lit "change_digest") gate) := by
    rw [require_ok] at hdigest
    exact isText_of_str ((pyEq_str_right _ _).mp hdigest)
  refine ⟨fun key hkey => ?_, payload, signature, bytes, hread, hbytes, hstated⟩
  simp only [metadataFields, List.map_cons, List.map_nil, List.mem_cons, List.not_mem_nil, or_false]
    at hkey
  rcases hkey with rfl | rfl | rfl | rfl | rfl | rfl | rfl | rfl
  · exact hschema
  · exact hbase
  · exact hhead
  · exact hrisk
  · exact hbuilderText
  · exact hdigestText
  · exact checkDeps_text hdeps
  · exact checkRollback_text h.paths hrollback

/-- The canonical form that the review is a digest of. -/
def metadataBytes (gate : Members) : Option Bytes := canonical (.obj (gateMetadata gate))

/-- **A receipt goes with one gate**: two gates that verify with it have the same metadata. -/
theorem receipt_fields {C : Crypto} {M M' : MergeHost} {H H' : ReviewHost}
    {baseRef baseRef' gatePath gatePath' : PyStr} {runChecks runChecks' : Bool}
    {gate gate' envelope : Members}
    (hC : NoCollision C (metadataBytes gate) (metadataBytes gate'))
    (h : VerifiesWith C M H baseRef gatePath runChecks gate envelope)
    (h' : VerifiesWith C M' H' baseRef' gatePath' runChecks' gate' envelope) :
    ∀ key ∈ metadataFields, get key gate = get key gate' := by
  obtain ⟨htext, payload, signature, bytes, hread, hbytes, hdigest⟩ := h.metadata
  obtain ⟨htext', payload', signature', bytes', hread', hbytes', hdigest'⟩ := h'.metadata
  rw [hread] at hread'
  obtain ⟨rfl, -⟩ := Prod.mk.inj (Except.ok.inj hread')
  rw [hdigest] at hdigest'
  obtain rfl := hC bytes bytes' hbytes hbytes' (Json.str.inj hdigest')
  exact metadata_inj htext htext' hbytes hbytes'

/-! ## A reviewed gate -/

/-- The gate of the sample, with a receipt. -/
def reviewedGate (receipt : String) : Members :=
  setMember (lit "protected_file_review") (.str (lit receipt)) sampleGate

/-- The receipt does not stand in the metadata. -/
theorem metadataBytes_reviewedGate (receipt receipt' : String) :
    metadataBytes (reviewedGate receipt) = metadataBytes (reviewedGate receipt') := by
  have hsame (key : PyStr) (hkey : key ∈ metadataFields) :
      (key, get key (reviewedGate receipt)) = (key, get key (reviewedGate receipt')) := by
    have hne : key ≠ lit "protected_file_review" := by
      rintro rfl
      exact absurd hkey (by decide)
    unfold reviewedGate
    rw [get_setMember_ne _ _ hne, get_setMember_ne _ _ hne]
  unfold metadataBytes gateMetadata
  rw [List.map_congr_left hsame]

/-- The digest of the metadata. -/
def metadataDigest : Nat := 0x6050ef5729262512c13cc2021f4e173ffc09adae24f77b6dc0d6004f50580d67

def reviewNow : Instant := ⟨63000000000000000, sampleMicros_lt⟩

def reviewPayload : Members :=
  [(lit "review_id", .str (lit "R-1")), (lit "reviewer_id", .str (lit "reviewer")),
    (lit "builder_id", .str (lit "builder")), (lit "change_digest", .str (hexDigest patchDigest)),
    (lit "gate_metadata_digest", .str (hexDigest metadataDigest)),
    (lit "verdict", .str (lit "approved")), (lit "issued_at", .str (stamp reviewNow)),
    (lit "expires_at", .str (stamp ((reviewNow.add? (hours 1)).getD reviewNow))),
    (lit "nonce", .str (lit "nonce"))]

def reviewKey : PyStr := lit "+FlVydW0y5POmz2U1Z+eCLH2PXD11bxWrd4+9DMqXN8="

def reviewSignature : PyStr :=
  lit "APKpw82SNx+V3vOkbeAPeh0S44B2QjVoghEuU9ruVC6mXYCH2ADFA8Qk59C2kpS9WPBv85lj86/tONcB1N+eBA=="

/-- The real digests and the real signature of the sample. -/
def reviewCrypto : Crypto :=
  .ofTables
    [(utf8Encode (lit "patch"), patchDigest), (metadataBytes (reviewedGate ""), metadataDigest)]
    [((b64decode reviewKey).getD [], (b64decode reviewSignature).getD [],
      canonical (.obj reviewPayload))]

def reviewEnvelope : Members :=
  [(lit "schema_version", .str (lit "1.0")), (lit "algorithm", .str (lit "ed25519")),
    (lit "review", .obj reviewPayload), (lit "signature", .str reviewSignature)]

def reviewerRecord : Members :=
  [(lit "reviewer_id", .str (lit "reviewer")), (lit "algorithm", .str (lit "ed25519")),
    (lit "public_key", .str reviewKey), (lit "status", .str (lit "active"))]

def reviewHost : ReviewHost where
  paths := ⟨fun _ => false, id, fun _ => true⟩
  isUnderReviews path := (lit ".sddgov/reviews/").isPrefixOf path
  loadReceipt _ := .ok reviewEnvelope
  now := reviewNow
  trustedReviewers _ :=
    .ok [(lit "schema_version", .str (lit "1.0")), (lit "reviewers", .arr [.obj reviewerRecord])]

/-- The sample host, where the changed file is protected. -/
def reviewedHost (receipt : String) : MergeHost :=
  { sampleHost with
    loadGate := fun _ => .ok (reviewedGate receipt)
    boundedPath := boundedRepositoryPath reviewHost.paths
    protectedPatterns := fun _ => .ok [lit "src"]
    verifyReview := reviewOf reviewCrypto reviewHost }

theorem reviewedHost_ready :
    ([".sddgov/reviews/one.json", ".sddgov/reviews/two.json"].all fun receipt =>
      (verifyMerge (reviewedHost receipt) reviewCrypto (lit "main") (lit "gate") false).isOk
        && (boundedRepositoryPath reviewHost.paths (.str (lit receipt))
          (lit "review receipt")).isOk) = true := by
  decide +kernel

/-- Both gates of the sample verify. -/
theorem reviewed_verifies {receipt : String}
    (h : receipt ∈ [".sddgov/reviews/one.json", ".sddgov/reviews/two.json"]) :
    VerifiesWith reviewCrypto (reviewedHost receipt) reviewHost (lit "main") (lit "gate") false
      (reviewedGate receipt) reviewEnvelope := by
  have hall := List.all_eq_true.mp reviewedHost_ready receipt h
  rw [Bool.and_eq_true] at hall
  refine ⟨rfl, rfl, rfl, ?_, ?_⟩
  · cases hpath : boundedRepositoryPath reviewHost.paths (.str (lit receipt))
      (lit "review receipt") with
    | ok path =>
      refine ⟨lit receipt, path, ?_, hpath, rfl⟩
      unfold reviewedGate
      rw [get_setMember]
    | error e => rw [hpath] at hall; exact absurd hall.2 (by simp [Except.isOk, Except.toBool])
  · cases hresult : verifyMerge (reviewedHost receipt) reviewCrypto (lit "main")
      (lit "gate") false with
    | ok result => exact ⟨result, rfl⟩
    | error e => rw [hresult] at hall; exact absurd hall.1 (by simp [Except.isOk, Except.toBool])

end SddGov.MergeGate
