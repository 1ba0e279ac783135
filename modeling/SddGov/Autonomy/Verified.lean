import SddGov.Autonomy.Approval
import SddGov.Governance.Traces
import SddGov.Python.JsonText

/-!
# What a verification establishes

Programs are read backwards here: from a trace that ends with a result, each
lemma gives the calls that were made and what their answers must have been.
`verifyOperationEnvelope_ok` is the one about approvals: whatever the clock and
the trust store answered, an envelope that passes holds one whole receipt, and
the digests handed on are those of its canonical bytes and of its payload.
-/

namespace SddGov.Autonomy

open SddGov.Effect SddGov.Python SddGov.Governance

/-! ## What a verification has established -/

/-- `envelope["receipt"]["nonce"]`. -/
def approvalNonce (envelope : Json) : Except Exn Json :=
  (item envelope "receipt").bind (item · "nonce")

/-- The facts about an envelope that passed, whatever the clock and the trust store said. -/
structure Verified (C : Crypto) (envelope : Json) (v : VerifiedOperation) : Prop where
  envelope : ∃ signature, envelope? envelope = some (v.receipt.members, signature)
  receipt : operationReceipt? v.receipt.members = some v.receipt
  payload : validateOperationPayload C v.receipt.operationPayload = .ok v.operationPayloadSha256
  nonce : 12 ≤ v.receipt.nonce.length
  signed : ∃ message, canonicalBytes (.obj v.receipt.members) = some message
    ∧ v.receiptSha256 = C.sha256 message

/-- A receipt keeps the members it was read from. -/
theorem operationReceipt?_members {m : Members} {r : OperationReceipt}
    (h : operationReceipt? m = some r) :
    r.members = m ∧ receiptText m "nonce" = some r.nonce
      ∧ r.operationPayload = get (lit "operation_payload") m := by
  unfold operationReceipt? at h
  split at h
  · obtain ⟨_, -, h⟩ := Option.bind_eq_some_iff.mp h
    obtain ⟨_, -, h⟩ := Option.bind_eq_some_iff.mp h
    obtain ⟨_, -, h⟩ := Option.bind_eq_some_iff.mp h
    obtain ⟨_, -, h⟩ := Option.bind_eq_some_iff.mp h
    obtain ⟨_, -, h⟩ := Option.bind_eq_some_iff.mp h
    obtain ⟨_, -, h⟩ := Option.bind_eq_some_iff.mp h
    obtain ⟨_, -, h⟩ := Option.bind_eq_some_iff.mp h
    obtain ⟨nonce, hn, h⟩ := Option.bind_eq_some_iff.mp h
    obtain rfl := Option.some.inj h
    exact ⟨rfl, hn, rfl⟩
  · exact absurd h (by simp)

/-- What is read off an envelope is what its contract, its payload check and its nonce rule say. -/
theorem readOperationEnvelope_ok {C : Crypto} {envelope : Json} {receipt : OperationReceipt}
    {signature sha : PyStr} {issuedAt expiresAt : Instant}
    (h : readOperationEnvelope C envelope = .ok (receipt, signature, sha, issuedAt, expiresAt)) :
    envelope? envelope = some (receipt.members, signature)
      ∧ operationReceipt? receipt.members = some receipt
      ∧ validateOperationPayload C receipt.operationPayload = .ok sha
      ∧ 12 ≤ receipt.nonce.length := by
  unfold readOperationEnvelope at h
  split at h
  · exact absurd h (by simp)
  · next m sig henv =>
    split at h
    · exact absurd h (by simp)
    · next r hr =>
      obtain ⟨s, hs, h⟩ := except_bind_ok.mp h
      obtain ⟨_, -, h⟩ := except_bind_ok.mp h
      obtain ⟨_, hn, h⟩ := except_bind_ok.mp h
      obtain ⟨_, -, h⟩ := except_bind_ok.mp h
      obtain ⟨_, -, h⟩ := except_bind_ok.mp h
      obtain ⟨rfl, rfl, rfl, -, -⟩ : r = receipt ∧ sig = signature ∧ s = sha ∧ _ ∧ _ := by
        simpa [pure, Except.pure] using h
      have hm := (operationReceipt?_members hr).1
      rw [hm]
      exact ⟨henv, hr, hs, by simpa using require_ok.mp hn⟩

/-- All that a verified operation envelope has passed: the fields of the receipt, its times, the
trusted key and the signature over the canonical bytes. -/
theorem verifyOperationEnvelope_ok {C : Crypto} {envelope : Json} {v : VerifiedOperation}
    {t : List (Event hostSig)} (h : Runs (verifyOperationEnvelope C envelope) t (.ok v)) :
    Verified C envelope v := by
  obtain ⟨_, _, ⟨receipt, signature, sha, issuedAt, expiresAt⟩, -, hread, h⟩ := runs_bind h
  dsimp only [Prog.bind_eq] at h
  obtain ⟨_, _, current, -, -, h⟩ := runs_bind h
  obtain ⟨_, _, _, -, -, h⟩ := runs_bind h
  obtain ⟨_, _, key, -, -, h⟩ := runs_bind h
  obtain ⟨_, _, receiptSha256, -, hsig, h⟩ := runs_bind h
  obtain rfl := Except.ok.inj (runs_ret h).2
  obtain ⟨henv, hreceipt, hpayload, hnonce⟩ := readOperationEnvelope_ok (runs_ofExcept hread).2.symm
  have hsig := (runs_ofExcept hsig).2.symm
  refine ⟨⟨signature, henv⟩, hreceipt, hpayload, hnonce, ?_⟩
  unfold checkSignature at hsig
  split at hsig
  · next message _ _ hmessage =>
    split at hsig
    · exact ⟨message, hmessage, (Except.ok.inj hsig).symm⟩
    · exact absurd hsig (by simp)
  · exact absurd hsig (by simp)

theorem receiptText_eq {m : Members} {field : String} {s : PyStr}
    (h : receiptText m field = some s) : get (lit field) m = .str s := by
  unfold receiptText text? at h
  split at h
  · next s' hs =>
    split at h
    · exact absurd h (by simp)
    · obtain rfl := Option.some.inj h
      exact hs
  · exact absurd h (by simp)

namespace Verified

variable {C : Crypto} {envelope : Json} {v : VerifiedOperation} (h : Verified C envelope v)
include h

/-- The nonce in the signed receipt. -/
theorem get_nonce : get (lit "nonce") v.receipt.members = .str v.receipt.nonce :=
  receiptText_eq (operationReceipt?_members h.receipt).2.1

/-- The receipt could be signed, so its nonce can be encoded. -/
theorem nonce_encodes : (utf8Encode v.receipt.nonce).isSome = true := by
  obtain ⟨message, hm, -⟩ := h.signed
  exact utf8Encode_member hm (mem_of_get h.get_nonce)

/-- The nonce that the runner takes from the envelope is the one that was verified. -/
theorem approvalNonce_eq : approvalNonce envelope = .ok (.str v.receipt.nonce) := by
  obtain ⟨signature, henv⟩ := h.envelope
  have hn := h.get_nonce
  unfold envelope? at henv
  split at henv
  · next m =>
    split at henv
    · split at henv
      · next receipt sig hreceipt _ =>
        obtain ⟨hm, -⟩ := Prod.mk.inj (Option.some.inj henv)
        unfold approvalNonce item
        unfold Python.get at hreceipt hn
        rw [← hm] at hn
        cases hl : lookup (lit "receipt") m with
        | none => rw [hl] at hreceipt; exact absurd hreceipt (by simp)
        | some w =>
          rw [hl] at hreceipt
          obtain rfl : w = .obj receipt := hreceipt
          simp only [hl, Except.bind]
          cases hl' : lookup (lit "nonce") receipt with
          | none => rw [hl'] at hn; exact absurd hn (by simp)
          | some u =>
            rw [hl'] at hn
            obtain rfl : u = .str v.receipt.nonce := hn
            rfl
      · exact absurd henv (by simp)
    · exact absurd henv (by simp)
  · exact absurd henv (by simp)

/-- The two digests are digests. -/
theorem digests (hC : C.Hex) :
    isSha256 v.receiptSha256 = true ∧ isSha256 v.operationPayloadSha256 = true := by
  obtain ⟨message, -, hr⟩ := h.signed
  obtain ⟨b, -, hp⟩ := Option.map_eq_some_iff.mp (validateOperationPayload_digest h.payload)
  exact ⟨hr ▸ hC message, hp ▸ hC b⟩

end Verified

end SddGov.Autonomy
