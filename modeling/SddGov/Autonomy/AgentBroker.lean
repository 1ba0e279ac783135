import SddGov.Autonomy.Verified
import SddGov.Broker.Delivery

/-!
# Agent and Broker

Two modules have a rule for nonces. A receipt is imported when its nonce is
text of at least 12 characters that is not blank and can be encoded
(`Verified`); the Broker acts on 12 to 256 printable ASCII characters
(`validNonce`). An imported approval can be consumed exactly where the second
rule holds as well (`import_consumable_iff`), so one with a blank inside its
nonce is imported and never consumed (`imported_unconsumable`).
-/

namespace SddGov.Autonomy

open SddGov.Effect SddGov.Python SddGov.Governance
open SddGov.Broker

/-! ## The Broker's answer to a line -/

/-- There is a request line, it arrives as it was sent, and `handle_request` does not
answer it `REJECTED`, whatever the ledger holds and whichever call fails. -/
def Consumable (nonce receiptSha256 operationPayloadSha256 : PyStr) : Prop :=
  ∃ line, requestLine nonce receiptSha256 operationPayloadSha256 = some line
    ∧ (∀ t x, Runs receiveRequest t x → Delivers line t → x = .ok line)
    ∧ ∀ (L : NonceLedger) t reply, Runs (handleRequest L line) t (.ok reply) → reply ≠ rejected

/-- The characters and the length the Broker accepts. -/
def BrokerNonce (nonce : PyStr) : Prop := nonce.length ≤ 256 ∧ nonce.all isPrintable = true

theorem brokerNonce_iff {nonce : PyStr} (h : 12 ≤ nonce.length) :
    BrokerNonce nonce ↔ validNonce nonce = true := by
  unfold BrokerNonce validNonce
  simp [h]

/-- A consume request is answered `CONSUMED` or `ALREADY_CONSUMED`. -/
theorem answer_consume_ne_rejected (L : NonceLedger)
    (nonce receiptSha256 operationPayloadSha256 : PyStr) {t : List (Event ledgerSig)}
    {reply : Bytes}
    (h : Runs (answer L (some (.consume nonce receiptSha256 operationPayloadSha256))) t
      (.ok reply)) :
    reply ≠ rejected := by
  obtain ⟨_, _, isConsumed, -, -, h⟩ := runs_bind h
  obtain rfl := Except.ok.inj (runs_ret h).2
  cases isConsumed <;> decide

/-- For digests, a nonce that can be encoded is consumable exactly when the Broker's rule holds. -/
theorem consumable_iff {nonce receiptSha256 operationPayloadSha256 : PyStr}
    (hn : (utf8Encode nonce).isSome = true) (hl : 12 ≤ nonce.length)
    (hr : isSha256 receiptSha256 = true) (ho : isSha256 operationPayloadSha256 = true) :
    Consumable nonce receiptSha256 operationPayloadSha256 ↔ BrokerNonce nonce := by
  rw [brokerNonce_iff hl]
  constructor
  · rintro ⟨line, hline, -, hnever⟩
    by_contra hv
    -- the fields are refused, so the answer is `REJECTED` without a call
    have hnone := @request?_members nonce receiptSha256 operationPayloadSha256
    rw [if_neg (by simp [hv])] at hnone
    have hrun : handleRequest ⟨0, false⟩ line = .ret rejected := by
      unfold handleRequest
      rw [parseRequest_requestLine hline]
      show answer _ (request? (sortedMembers nonce receiptSha256 operationPayloadSha256)) = _
      rw [hnone]
      rfl
    refine hnever ⟨0, false⟩ [] rejected ?_ rfl
    rw [hrun]
    exact .ret _
  · intro hv
    have hsome : (requestLine nonce receiptSha256 operationPayloadSha256).isSome = true := by
      have encodes : ∀ s, isSha256 s = true → (utf8Encode s).isSome = true := by
        intro s hs
        rw [utf8Encode_ascii (plain_of_isSha256 hs).1.isAscii]
        rfl
      rw [requestLine_isSome, hn, encodes _ hr, encodes _ ho]
      rfl
    obtain ⟨line, hline⟩ := Option.isSome_iff_exists.mp hsome
    have hlen := length_requestLine hv hr ho hline
    refine ⟨line, hline, ?_, ?_⟩
    · intro t x hrun hdel
      rw [receive_delivered hlen hrun hdel, checkRequest_requestLine hline hlen]
    · intro L t reply hrun
      obtain ⟨_, _, m, -, hparse, hans⟩ := runs_bind hrun
      have hm := (runs_ofExcept hparse).2
      rw [parseRequest_requestLine hline] at hm
      obtain rfl := Except.ok.inj hm
      rw [request?_members, if_pos (by simp [hv, hr, ho])] at hans
      exact answer_consume_ne_rejected L _ _ _ hans

/-! ## Imported approvals -/

/-- What an import that succeeds has read and verified. -/
theorem importOperationApproval_ok {C : Crypto} {path : PyStr} {t : List (Event hostSig)}
    {result : Members} (h : Runs (importOperationApproval C path) t (.ok result)) :
    ∃ envelope v, (⟨.readJson (.given path), .ok (some envelope)⟩ : Event hostSig) ∈ t
      ∧ Verified C envelope v ∧ result = importResult v := by
  obtain ⟨t₁, t₂, envelope, rfl, hread, hrest⟩ := runs_bind h
  obtain ⟨_, _, v, -, hverify, hrest⟩ := runs_bind hrest
  obtain ⟨_, _, _, -, -, hrest⟩ := runs_bind hrest
  obtain ⟨_, _, _, -, -, hrest⟩ := runs_bind hrest
  have hv := verifyOperationEnvelope_ok hverify
  have hresult := Except.ok.inj (runs_ret hrest).2
  obtain ⟨r, rfl, rfl⟩ := runs_readJson hread
  cases r with
  | none =>
    -- a missing file reads as `None`, which is no envelope
    obtain ⟨signature, henv⟩ := hv.envelope
    exact absurd henv (by simp [envelope?])
  | some envelope =>
    exact ⟨envelope, v, List.mem_append_left _ (List.mem_singleton.mpr rfl), hv,
      hresult⟩

/-- **Agreement on nonces.** An approval that was imported, whatever the files, the
clock and the trust store answered, has a nonce; the request line for it and the two
digests the import returned is received and acted on by the Broker if and only if the
nonce has at most 256 characters, all of them printable ASCII other than the blank. -/
theorem import_consumable_iff (C : Crypto) (hC : C.Hex) {path : PyStr} {t : List (Event hostSig)}
    {result : Members} (h : Runs (importOperationApproval C path) t (.ok result)) :
    ∃ envelope nonce receiptSha256 operationPayloadSha256,
      (⟨.readJson (.given path), .ok (some envelope)⟩ : Event hostSig) ∈ t
      ∧ approvalNonce envelope = .ok (.str nonce)
      ∧ get (lit "receipt_sha256") result = .str receiptSha256
      ∧ get (lit "operation_payload_sha256") result = .str operationPayloadSha256
      ∧ (Consumable nonce receiptSha256 operationPayloadSha256 ↔ BrokerNonce nonce) := by
  obtain ⟨envelope, v, hread, hv, rfl⟩ := importOperationApproval_ok h
  obtain ⟨hr, ho⟩ := hv.digests hC
  exact ⟨envelope, v.receipt.nonce, v.receiptSha256, v.operationPayloadSha256, hread,
    hv.approvalNonce_eq, rfl, rfl, consumable_iff hv.nonce_encodes hv.nonce hr ho⟩

/-! ## Two receipts -/

/-- The signed payload of the sample receipts. -/
def samplePayload : Members :=
  [(lit "repository", .str (lit "example/app")), (lit "project", .str (lit "app")),
    (lit "environment", .str (lit "production")), (lit "scope", .str (lit "one refund")),
    (lit "category", .str (lit "real_payment")), (lit "target", .str (lit "gateway")),
    (lit "parameters", .obj []), (lit "effects", .obj [(lit "real_payment", .bool true)])]

/-- A receipt for it. -/
def sampleReceipt (nonce : String) : Members :=
  [(lit "approval_id", .str (lit "APP-1")), (lit "operation_id", .str (lit "OP-1")),
    (lit "operation_payload", .obj samplePayload), (lit "summary", .str (lit "one refund")),
    (lit "scope", .str (lit "one refund")), (lit "approved_by", .str (lit "owner")),
    (lit "issued_at", .str (lit "1997-05-23T15:00:00Z")),
    (lit "expires_at", .str (lit "1997-05-23T17:00:00Z")), (lit "nonce", .str (lit nonce))]

/-- A receipt with its signature and its digest. -/
structure Signed where
  nonce : String
  signature : String
  digest : Nat

def Signed.receipt (s : Signed) : Members := sampleReceipt s.nonce

def Signed.envelope (s : Signed) : Json :=
  .obj [(lit "schema_version", .str (lit "1.0")), (lit "algorithm", .str (lit "ed25519")),
    (lit "receipt", .obj s.receipt), (lit "signature", .str (lit s.signature))]

/-- A nonce both sides accept. -/
def plainSigned : Signed where
  nonce := "nonce-000001"
  signature :=
    "NbtNPaf+FuuKj4BL7Q5knlfhm/5dLg2FeYjb3biDSeU8Z2KTbnOI/1hPRrdACC1Anwl/16ZIHWDU6C57d8c+CQ=="
  digest := 0x729a4a100c4beaf2ed5ce3649f93743f788d9b66fe398377856633e7586c5dfc

/-- A nonce with a blank. -/
def blankSigned : Signed where
  nonce := "nonce 000001"
  signature :=
    "+NhSayRXxfsYFzn+xVHgzHlCDuP0lnI9SEG17oqI3djF0GKoEMhjRTWwYt01VLm79Z28894CHeJ5O2p8o/exBQ=="
  digest := 0x41848246a23b753fc8b568cd7d7c3f75fee2ecec54162255ac67c24f36edbf28

def sampleKey : PyStr := lit "ySv39WoKi1IkjoHX1JXCcfY+1+T4F+HNMoBUYjBXYbw="

/-- The real digests and signatures of the sample values. -/
def sampleCrypto : Crypto :=
  .ofTables
    ((canonicalBytes (.obj samplePayload),
        0x8fbd1e99f8741860f545dd95ae54f8429bd9bc241f76665a708567e63856301d)
      :: [plainSigned, blankSigned].map fun s => (canonicalBytes (.obj s.receipt), s.digest))
    ([plainSigned, blankSigned].map fun s => ((b64decode sampleKey).getD [],
      (b64decode (lit s.signature)).getD [], canonicalBytes (.obj s.receipt)))

theorem sampleCrypto_hex : sampleCrypto.Hex := Crypto.ofTables_hex _ _

/-- A host with an envelope to import, its trust store and its context. -/
def sampleHost (envelope : Json) : CalmHost where
  now := ⟨63000000000000000, sampleMicros_lt⟩
  files file := if file = .given [] then .ok (some envelope) else .ok none
  documents
    | .trustedApprovers =>
      [(lit "schema_version", .str (lit "1.0")), (lit "approvers", .arr [.obj
        [(lit "approver_id", .str (lit "owner")), (lit "algorithm", .str (lit "ed25519")),
          (lit "public_key", .str sampleKey), (lit "status", .str (lit "active"))]])]
    | .approverDomains => []
    | .runtimeContext =>
      [(lit "schema_version", .str (lit "1.0")), (lit "repository", .str (lit "example/app")),
        (lit "project", .str (lit "app")), (lit "environment", .str (lit "production"))]
  reply := []

/-- The import of one of the two receipts. -/
def sampleImport (s : Signed) : List (Event hostSig) × Outcome Exn Members :=
  (importOperationApproval sampleCrypto []).answered (sampleHost s.envelope).answer

/-- The sample's import as a run of the program. -/
theorem runs_sampleImport {s : Signed} (h : (sampleImport s).2.isOk = true) :
    ∃ result, Runs (importOperationApproval sampleCrypto []) (sampleImport s).1 (.ok result) := by
  have hrun := runs_answered (sampleHost s.envelope).answer
    (importOperationApproval sampleCrypto [])
  cases hr : (sampleImport s).2 with
  | error e =>
    rw [hr] at h
    exact absurd h (by simp [Except.isOk, Except.toBool])
  | ok result =>
    refine ⟨result, ?_⟩
    unfold sampleImport at hr
    rw [hr] at hrun
    exact hrun

/-- The plain nonce is imported, and its approval is consumable because the nonce is one of
the Broker's. -/
theorem import_consumable_plain :
    ∃ t result, Runs (importOperationApproval sampleCrypto []) t (.ok result)
      ∧ ∃ envelope nonce receiptSha256 operationPayloadSha256,
        (⟨.readJson (.given []), .ok (some envelope)⟩ : Event hostSig) ∈ t
        ∧ approvalNonce envelope = .ok (.str nonce)
        ∧ get (lit "receipt_sha256") result = .str receiptSha256
        ∧ get (lit "operation_payload_sha256") result = .str operationPayloadSha256
        ∧ (Consumable nonce receiptSha256 operationPayloadSha256 ↔ BrokerNonce nonce) := by
  have hok : (sampleImport plainSigned).2.isOk = true := by decide +kernel
  obtain ⟨result, hrun⟩ := runs_sampleImport hok
  exact ⟨_, result, hrun, import_consumable_iff sampleCrypto sampleCrypto_hex hrun⟩

/-- The nonce with a blank is imported, and the Broker answers its request line `REJECTED`. -/
theorem imported_unconsumable :
    ¬∀ (C : Crypto), C.Hex → ∀ path t result,
      Runs (importOperationApproval C path) t (.ok result) →
      ∀ envelope nonce receiptSha256 operationPayloadSha256,
        (⟨.readJson (.given path), .ok (some envelope)⟩ : Event hostSig) ∈ t →
        approvalNonce envelope = .ok (.str nonce) →
        get (lit "receipt_sha256") result = .str receiptSha256 →
        get (lit "operation_payload_sha256") result = .str operationPayloadSha256 →
        Consumable nonce receiptSha256 operationPayloadSha256 := by
  intro h
  have hok : (sampleImport blankSigned).2.isOk = true := by decide +kernel
  obtain ⟨result, hrun⟩ := runs_sampleImport hok
  obtain ⟨envelope, v, hread, hv, hresult⟩ := importOperationApproval_ok hrun
  obtain ⟨hr, ho⟩ := hv.digests sampleCrypto_hex
  have hcon := h sampleCrypto sampleCrypto_hex [] _ result hrun envelope v.receipt.nonce
    v.receiptSha256 v.operationPayloadSha256 hread hv.approvalNonce_eq (by rw [hresult]; rfl)
    (by rw [hresult]; rfl)
  have hbroker := (consumable_iff hv.nonce_encodes hv.nonce hr ho).mp hcon
  -- the envelope that was read is the sample, and its nonce has a blank
  obtain rfl : envelope = blankSigned.envelope :=
    Option.some.inj (Except.ok.inj (mem_answered hread))
  have hnonce : approvalNonce blankSigned.envelope = .ok (.str (lit "nonce 000001")) := by
    decide
  rw [hv.approvalNonce_eq] at hnonce
  rw [Json.str.inj (Except.ok.inj hnonce)] at hbroker
  exact absurd hbroker.2 (by decide)

end SddGov.Autonomy
