import SddGov.Python.Crypto
import SddGov.Python.Struct

/-!
# Answers of the SSH agent

`_ssh_string`, `_take_ssh_string`, and the two answers the Owner signer's agent
gives: the list of its keys and one signature. A string that is taken stands in
the buffer behind its length (`takeSshString_ok_iff`); from there the loop over the
keys, and with it the whole answer, is the encoding of a list
(`takeIdentities_ok_iff`, `checkIdentities_ok_iff`). `agent_answers_exact` states
the three together.
-/

namespace SddGov.Owner

open SddGov.Python

/-- `MAX_AGENT_MESSAGE_BYTES` -/
def maxAgentMessageBytes : Nat := 1024 * 1024

def sshAgentcRequestIdentities : Byte := byte 11

def sshAgentIdentitiesAnswer : Byte := byte 12

def ssh2AgentcSignRequest : Byte := byte 13

def ssh2AgentSignResponse : Byte := byte 14

def sshAgentFailure : Byte := byte 5

/-- `b"ssh-ed25519"` -/
def sshEd25519 : Bytes := (lit "ssh-ed25519").map fun c => byte c.val

/-! ## Strings -/

/-- `_ssh_string` -/
def sshString (value : Bytes) : Except Exn Bytes :=
  if maxAgentMessageBytes < value.length then
    .error (valueError "SSH agent field exceeds the bounded protocol size")
  else .ok (packU32 value.length ++ value)

/-- `_take_ssh_string`: the string and the offset behind it. -/
def takeSshString (payload : Bytes) (offset : Nat) : Except Exn (Bytes × Nat) :=
  if payload.length < offset + 4 then
    .error (valueError "SSH agent returned a truncated string length")
  else
    let length := unpackU32 (slice payload offset (offset + 4))
    if maxAgentMessageBytes < length ∨ payload.length < offset + 4 + length then
      .error (valueError "SSH agent returned an invalid string length")
    else .ok (slice payload (offset + 4) (offset + 4 + length), offset + 4 + length)

/-! ## The exchange -/

/-- `_recv_exact`, on what the agent has still to send: the bytes, and what is left. -/
def recvExact (stream : Bytes) (length : Nat) : Except Exn (Bytes × Bytes) :=
  if stream.length < length then
    .error (valueError "SSH agent closed before returning a complete response")
  else .ok (stream.take length, stream.drop length)

/-- `_ssh_agent_exchange`, with all the agent sends on the connection; `none` is an `OSError` of a
socket call. -/
def sshAgentExchange (socketPath : PyStr) (payload : Bytes) (stream : Option Bytes) :
    Except Exn Bytes :=
  if socketPath.isEmpty || socketPath.contains (cp 0) then
    .error (valueError "SSH_AUTH_SOCK is unavailable or invalid")
  else if maxAgentMessageBytes < payload.length then
    .error (valueError "SSH agent request exceeds the bounded protocol size")
  else
    match stream with
    | none => .error (valueError "Owner signer channel is unavailable")
    | some stream => do
      let (header, stream) ← recvExact stream 4
      let length := unpackU32 header
      if length < 1 ∨ maxAgentMessageBytes < length then
        .error (valueError "SSH agent response has an invalid bounded length")
      else do
        let (response, _) ← recvExact stream length
        .ok response

/-! ## The keys of the agent -/

/-- `_ed25519_key_blob` -/
def ed25519KeyBlob (publicKey : Bytes) : Except Exn Bytes :=
  if publicKey.length ≠ 32 then
    .error (valueError "trusted Owner Ed25519 public key must contain 32 raw bytes")
  else do
    let algorithm ← sshString sshEd25519
    let key ← sshString publicKey
    .ok (algorithm ++ key)

/-- The loop over the keys: the offset behind them, and how many are the expected one. -/
def takeIdentities (response expectedBlob : Bytes) : Nat → Nat → Nat → Except Exn (Nat × Nat)
  | 0, offset, matched => .ok (offset, matched)
  | count + 1, offset, matched => do
    let (blob, offset) ← takeSshString response offset
    let (_comment, offset) ← takeSshString response offset
    takeIdentities response expectedBlob count offset
      (if blob = expectedBlob then matched + 1 else matched)

/-- What `_require_agent_identity` makes of the response. -/
def checkIdentities (expectedBlob response : Bytes) : Except Exn Unit :=
  match response with
  | [] => .error (valueError "SSH agent returned an empty identity response")
  | kind :: _ =>
    if kind = sshAgentFailure then .error (valueError "Owner signer refused the identity request")
    else if kind ≠ sshAgentIdentitiesAnswer ∨ response.length < 5 then
      .error (valueError "SSH agent returned an unexpected identity response")
    else
      let count := unpackU32 (slice response 1 5)
      if 128 < count then .error (valueError "SSH agent returned too many identities")
      else do
        let (offset, matched) ← takeIdentities response expectedBlob count 5 0
        if offset ≠ response.length then
          .error (valueError "SSH agent identity response contains trailing bytes")
        else if matched ≠ 1 then
          .error (valueError "trusted Owner key is not one unique active SSH agent identity")
        else .ok ()

/-- `_require_agent_identity` -/
def requireAgentIdentity (socketPath : PyStr) (expectedBlob : Bytes) (stream : Option Bytes) :
    Except Exn Unit := do
  let response ← sshAgentExchange socketPath [sshAgentcRequestIdentities] stream
  checkIdentities expectedBlob response

/-! ## The signature -/

/-- The parts of the signing response. -/
def takeSignature (response : Bytes) : Except Exn Bytes :=
  match response with
  | [] => .error (valueError "SSH agent returned an empty signing response")
  | kind :: _ =>
    if kind = sshAgentFailure then
      .error (valueError "Owner declined or the Owner signer refused the request")
    else if kind ≠ ssh2AgentSignResponse then
      .error (valueError "SSH agent returned an unexpected signing response")
    else do
      let (signatureBlob, offset) ← takeSshString response 1
      if offset ≠ response.length then
        .error (valueError "SSH agent signing response contains trailing bytes")
      else do
        let (algorithm, offset) ← takeSshString signatureBlob 0
        let (signature, offset) ← takeSshString signatureBlob offset
        if offset ≠ signatureBlob.length ∨ algorithm ≠ sshEd25519 ∨ signature.length ≠ 64 then
          .error (valueError "SSH agent did not return one raw Ed25519 signature")
        else .ok signature

/-- The signing request. -/
def signRequest (keyBlob canonicalReceipt : Bytes) : Except Exn Bytes := do
  let key ← sshString keyBlob
  let receipt ← sshString canonicalReceipt
  .ok (ssh2AgentcSignRequest :: (key ++ receipt ++ packU32 0))

/-- `_sign_with_confirmed_ssh_agent`, with what the agent sends on its two connections. -/
def signWithConfirmedSshAgent (C : Crypto) (canonicalReceipt publicKey : Bytes) (socketPath : PyStr)
    (identities signing : Option Bytes) : Except Exn Bytes := do
  let keyBlob ← ed25519KeyBlob publicKey
  requireAgentIdentity socketPath keyBlob identities
  let request ← signRequest keyBlob canonicalReceipt
  let response ← sshAgentExchange socketPath request signing
  let signature ← takeSignature response
  if C.verifies publicKey signature canonicalReceipt then .ok signature
  else .error (valueError "SSH agent signature does not match the trusted Owner key")

/-! ## Encodings -/

/-- A string behind its length. -/
def field (value : Bytes) : Bytes := packU32 value.length ++ value

/-- The key blobs with their comments, one after the other. -/
def identityFields (identities : List (Bytes × Bytes)) :
    Bytes := identities.flatMap fun i => field i.1 ++ field i.2

/-- The identities answer of the agent protocol. -/
def encodeIdentities (identities : List (Bytes × Bytes)) : Bytes :=
  sshAgentIdentitiesAnswer :: (packU32 identities.length ++ identityFields identities)

/-- The sign response of the agent protocol, for an Ed25519 signature. -/
def encodeSignature (signature : Bytes) : Bytes :=
  ssh2AgentSignResponse :: field (field sshEd25519 ++ field signature)

/-- At most 128 identities within the bounds, one of which has the expected key. -/
structure IsIdentityList (expectedBlob : Bytes) (identities : List (Bytes × Bytes)) : Prop where
  few : identities.length ≤ 128
  bounded : ∀ i ∈ identities, i.1.length ≤ maxAgentMessageBytes ∧ i.2.length ≤ maxAgentMessageBytes
  unique : identities.countP (fun i => i.1 = expectedBlob) = 1

@[simp] theorem length_field (value : Bytes) : (field value).length = 4 + value.length := by
  unfold field
  rw [List.length_append, length_packU32]

theorem sshString_ok {value : Bytes} (h : value.length ≤ maxAgentMessageBytes) :
    sshString value = .ok (field value) := by
  unfold sshString
  rw [if_neg (by omega)]
  rfl

/-! ## Taking strings -/

/-- A string is taken exactly where it stands behind its length, within the bound. -/
theorem takeSshString_ok_iff {payload value : Bytes} {offset next : Nat} :
    takeSshString payload offset = .ok (value, next) ↔
      ∃ front rest, payload = front ++ field value ++ rest ∧ front.length = offset
        ∧ next = offset + (field value).length ∧ value.length ≤ maxAgentMessageBytes := by
  unfold takeSshString
  constructor
  · intro h
    split at h
    · cases h
    · next hlength =>
      dsimp only at h
      split at h
      · cases h
      · next hbound =>
        rw [not_or] at hbound
        obtain ⟨rfl, rfl⟩ := Prod.mk.inj (Except.ok.inj h)
        have hword : (slice payload offset (offset + 4)).length = 4 := by
          rw [length_slice (by omega)]
          omega
        have hvalue :
          (slice payload (offset + 4) (offset + 4 + unpackU32
          (slice payload offset (offset + 4)))).length
            = unpackU32 (slice payload offset (offset + 4)) := by
          rw [length_slice (by omega)]
          omega
        generalize hn : unpackU32 (slice payload offset (offset + 4)) = n at *
        refine ⟨payload.take offset, payload.drop (offset + 4 + n), ?_, ?_, ?_, by omega⟩
        · unfold field
          rw [hvalue, ← hn, packU32_unpackU32 hword, hn]
          have hfront : payload.take (offset + 4) = payload.take offset
            ++ slice payload offset (offset + 4) := by
            unfold slice
            conv_lhs => rw [← List.take_append_drop offset (payload.take (offset + 4))]
            rw [List.take_take, Nat.min_eq_left (by omega)]
          have hwhole := @append_slice payload (offset + 4) (offset + 4 + n) (by omega)
          rw [hfront] at hwhole
          simpa [List.append_assoc] using hwhole
        · rw [List.length_take]
          omega
        · rw [length_field, hvalue]
          omega
  · rintro ⟨front, rest, rfl, rfl, rfl, hbound⟩
    have hfield : field value = packU32 value.length ++ value := rfl
    have hword : slice (front ++ field value ++ rest) front.length (front.length + 4)
      = packU32 value.length := by
      have heq : front ++ field value ++ rest = front ++ packU32 value.length
        ++ (value ++ rest) := by
        rw [hfield]
        simp [List.append_assoc]
      exact slice_append heq
    have hsmall : value.length < 2 ^ 32 := by
      unfold maxAgentMessageBytes at hbound
      omega
    have hvalue : slice (front ++ field value ++ rest) (front.length + 4)
      (front.length + 4 + value.length) = value := by
      have heq : front ++ field value ++ rest = (front ++ packU32 value.length) ++ value
        ++ rest := by
        rw [hfield]
        simp [List.append_assoc]
      have hslice := slice_append heq
      rwa [List.length_append, length_packU32] at hslice
    have hlength : (front ++ field value ++ rest).length = front.length + (4 + value.length)
      + rest.length := by
      rw [List.length_append, List.length_append, length_field]
    rw [if_neg (by omega), hword, unpackU32_packU32 hsmall]
    dsimp only
    rw [if_neg (by omega), hvalue, length_field, Nat.add_assoc]

/-- Taking a string undoes writing it, whatever stands before it and behind it. -/
theorem takeSshString_field {value : Bytes} (front rest : Bytes)
    (h : value.length ≤ maxAgentMessageBytes) :
    takeSshString (front ++ field value ++ rest) front.length
    = .ok (value, front.length + (field value).length) :=
  takeSshString_ok_iff.mpr ⟨front, rest, rfl, rfl, rfl, h⟩

/-- A string taken behind a known front. -/
theorem takeSshString_behind {payload front value : Bytes} {next : Nat} (hfront : front <+: payload)
    (h : takeSshString payload front.length = .ok (value, next)) :
    front ++ field value <+: payload ∧ next = (front ++ field value).length
    ∧ value.length ≤ maxAgentMessageBytes := by
  obtain ⟨front', rest, hpayload, hlength, hnext, hbound⟩ := takeSshString_ok_iff.mp h
  have hsame : front' = front := by
    obtain ⟨rest', hpayload'⟩ := hfront
    rw [hpayload, List.append_assoc] at hpayload'
    exact (List.append_inj hpayload' hlength.symm).1.symm
  rw [hsame] at hpayload
  refine ⟨⟨rest, hpayload.symm⟩, ?_, hbound⟩
  rw [hnext, List.length_append]

/-! ## The keys -/

@[simp] theorem identityFields_nil : identityFields [] = [] := rfl

theorem identityFields_cons (i : Bytes × Bytes) (identities : List (Bytes × Bytes)) :
    identityFields (i :: identities) = field i.1 ++ field i.2 ++ identityFields identities := rfl

/-- The loop takes the encoding of a list, and counts the expected keys in it. -/
theorem takeIdentities_ok {response expectedBlob : Bytes} {count matched next total : Nat}
    {front : Bytes}
    (hfront : front <+: response)
    (h : takeIdentities response expectedBlob count front.length matched = .ok (next, total)) :
    ∃ identities : List (Bytes × Bytes), identities.length = count
      ∧ front ++ identityFields identities <+: response
        ∧ next = (front ++ identityFields identities).length
      ∧ (∀ i ∈ identities, i.1.length ≤ maxAgentMessageBytes ∧ i.2.length ≤ maxAgentMessageBytes)
      ∧ total = matched + identities.countP (fun i => i.1 = expectedBlob) := by
  induction count generalizing front matched with
  | zero =>
    obtain ⟨rfl, rfl⟩ := Prod.mk.inj (Except.ok.inj h)
    exact ⟨[], rfl, by simpa using hfront, by simp, by simp, by simp⟩
  | succ count ih =>
    unfold takeIdentities at h
    obtain ⟨⟨blob, offset⟩, hblob, h⟩ := except_bind_ok.mp h
    dsimp only at h
    obtain ⟨⟨comment, offset'⟩, hcomment, h⟩ := except_bind_ok.mp h
    dsimp only at h
    obtain ⟨hfront₁, rfl, hbound₁⟩ := takeSshString_behind hfront hblob
    obtain ⟨hfront₂, rfl, hbound₂⟩ := takeSshString_behind hfront₁ hcomment
    obtain ⟨identities, hcount, hrest, hnext, hbounded, htotal⟩ := ih hfront₂ h
    have hfields : front ++ identityFields ((blob, comment) :: identities)
        = front ++ field blob ++ field comment ++ identityFields identities := by
      rw [identityFields_cons]
      simp only [List.append_assoc]
    refine ⟨(blob, comment) :: identities, by rw [List.length_cons, hcount], ?_, ?_, ?_, ?_⟩
    · rw [hfields]
      exact hrest
    · rw [hfields]
      exact hnext
    · intro i hi
      rcases List.mem_cons.mp hi with rfl | hi
      · exact ⟨hbound₁, hbound₂⟩
      · exact hbounded i hi
    · rw [htotal, List.countP_cons]
      by_cases hmatch : blob = expectedBlob
      · simp only [hmatch, if_true, decide_true]
        omega
      · simp only [hmatch, if_false, decide_false, Bool.false_eq_true]
        omega

/-- And it takes every such encoding. -/
theorem takeIdentities_encoded {expectedBlob : Bytes} (identities : List (Bytes × Bytes))
    (front rest : Bytes)
    (matched : Nat)
    (h : ∀ i ∈ identities, i.1.length ≤ maxAgentMessageBytes ∧ i.2.length ≤ maxAgentMessageBytes) :
    takeIdentities (front ++ identityFields identities ++ rest) expectedBlob identities.length
    front.length matched
      = .ok ((front ++ identityFields identities).length,
        matched + identities.countP (fun i => i.1 = expectedBlob)) := by
  induction identities generalizing front matched with
  | nil => simp [takeIdentities]
  | cons i identities ih =>
    obtain ⟨hblob, hcomment⟩ := h i (List.mem_cons_self ..)
    have hresponse : front ++ identityFields (i :: identities) ++ rest
        = front ++ field i.1 ++ field i.2 ++ identityFields identities ++ rest := by
      rw [identityFields_cons]
      simp only [List.append_assoc]
    have htake₁ : takeSshString (front ++ field i.1 ++ field i.2 ++ identityFields identities
      ++ rest) front.length
        = .ok (i.1, (front ++ field i.1).length) := by
      have htake := takeSshString_field front (field i.2 ++ identityFields identities ++ rest) hblob
      rw [List.length_append]
      simpa only [List.append_assoc] using htake
    have htake₂ : takeSshString (front ++ field i.1 ++ field i.2
      ++ identityFields identities ++ rest)
        (front ++ field i.1).length = .ok (i.2, (front ++ field i.1 ++ field i.2).length) := by
      have htake := takeSshString_field (front ++ field i.1)
        (identityFields identities ++ rest) hcomment
      rw [@List.length_append _ (front ++ field i.1)]
      simpa only [List.append_assoc] using htake
    have hrest := ih (front ++ field i.1 ++ field i.2)
      (if i.1 = expectedBlob then matched + 1 else matched)
      fun i' hi' => h i' (List.mem_cons_of_mem _ hi')
    have hloop : takeIdentities (front ++ field i.1 ++ field i.2 ++ identityFields identities
      ++ rest) expectedBlob
        (identities.length + 1) front.length matched
          = takeIdentities (front ++ field i.1 ++ field i.2 ++ identityFields identities ++ rest)
            expectedBlob
            identities.length (front ++ field i.1 ++ field i.2).length
            (if i.1 = expectedBlob then matched + 1 else matched) := by
      conv_lhs => unfold takeIdentities
      rw [htake₁]
      dsimp only [bind, Except.bind]
      rw [htake₂]
    rw [hresponse, List.length_cons, hloop]
    rw [hrest, List.countP_cons, identityFields_cons]
    by_cases hmatch : i.1 = expectedBlob
    · simp only [hmatch, if_true, decide_true, List.append_assoc]
      rw [Nat.add_right_comm, Nat.add_assoc]
    · simp only [hmatch, if_false, decide_false, Bool.false_eq_true, List.append_assoc,
        Nat.add_zero]

/-! ## The answers -/

/-- The identities answer is accepted exactly where it encodes such a list. -/
theorem checkIdentities_ok_iff {expectedBlob response : Bytes} :
    checkIdentities expectedBlob response = .ok ()
      ↔ ∃ identities, response = encodeIdentities identities
        ∧ IsIdentityList expectedBlob identities := by
  constructor
  · intro h
    unfold checkIdentities at h
    split at h
    · cases h
    · next kind rest =>
      split at h
      · cases h
      · split at h
        · cases h
        · next hkind =>
          rw [not_or, not_not, Nat.not_lt] at hkind
          obtain ⟨rfl, hlong⟩ := hkind
          dsimp only at h
          split at h
          · cases h
          · next hcount =>
            obtain ⟨⟨next, total⟩, hloop, h⟩ := except_bind_ok.mp h
            dsimp only at h
            split at h
            · cases h
            · next hnext =>
              split at h
              · cases h
              · next htotal =>
                rw [not_not] at hnext htotal
                have hword : (slice (sshAgentIdentitiesAnswer :: rest) 1 5).length = 4 := by
                  rw [length_slice hlong]
                generalize hn : unpackU32 (slice (sshAgentIdentitiesAnswer :: rest) 1 5) = n at *
                -- the answer begins with its kind and the number of keys
                have hfront : [sshAgentIdentitiesAnswer] ++ packU32 n <+: sshAgentIdentitiesAnswer
                  :: rest := by
                  rw [← hn, packU32_unpackU32 hword]
                  refine ⟨(sshAgentIdentitiesAnswer :: rest).drop 5, ?_⟩
                  have hwhole := @append_slice (sshAgentIdentitiesAnswer :: rest) 1 5 (by decide)
                  exact hwhole.symm
                obtain ⟨identities, hidentities, hprefix, hlength, hbounded, hmatched⟩ :=
                  takeIdentities_ok hfront hloop
                have hresponse := hprefix.eq_of_length (by rw [← hlength, hnext])
                refine ⟨identities, ?_, ?_, hbounded, ?_⟩
                · rw [← hresponse]
                  unfold encodeIdentities
                  rw [hidentities]
                  rfl
                · omega
                · omega
  · rintro ⟨identities, rfl, hlist⟩
    have hsmall : identities.length < 2 ^ 32 := by
      have hfew := hlist.few
      omega
    have hcount : unpackU32 (slice (encodeIdentities identities) 1 5) = identities.length := by
      have heq : encodeIdentities identities
          = [sshAgentIdentitiesAnswer] ++ packU32 identities.length
            ++ identityFields identities := by
        rfl
      have hslice := slice_append heq
      rw [length_packU32] at hslice
      rw [show (5 : Nat) = [sshAgentIdentitiesAnswer].length + 4 from rfl]
      rw [show (1 : Nat) = [sshAgentIdentitiesAnswer].length from rfl, hslice,
        unpackU32_packU32 hsmall]
    have hloop : takeIdentities (encodeIdentities identities) expectedBlob identities.length 5 0
        = .ok ((encodeIdentities identities).length, 1) := by
      have htaken := @takeIdentities_encoded expectedBlob identities
        ([sshAgentIdentitiesAnswer] ++ packU32 identities.length) [] 0 hlist.bounded
      rw [List.append_nil, hlist.unique] at htaken
      exact htaken
    have hlong : ¬ (encodeIdentities identities).length < 5 := by
      unfold encodeIdentities
      rw [List.length_cons, List.length_append, length_packU32]
      omega
    have hfew : ¬ 128 < identities.length := Nat.not_lt.mpr hlist.few
    have hcons : encodeIdentities identities
        = sshAgentIdentitiesAnswer :: (packU32 identities.length ++ identityFields identities) :=
          rfl
    rw [hcons] at hcount hloop hlong ⊢
    unfold checkIdentities
    dsimp only
    rw [if_neg (by decide : ¬ sshAgentIdentitiesAnswer = sshAgentFailure),
      if_neg (by rw [not_or]; exact ⟨not_not.mpr rfl, hlong⟩)]
    rw [hcount, if_neg hfew, hloop]
    dsimp only [bind, Except.bind]
    rw [if_neg (not_not.mpr rfl), if_neg (not_not.mpr rfl)]

/-- What the exchange returns: the agent sent it behind its length, within the bound. -/
theorem sshAgentExchange_ok_iff {socketPath : PyStr} {payload response : Bytes}
    {stream : Option Bytes} :
    sshAgentExchange socketPath payload stream = .ok response
      ↔ (socketPath.isEmpty || socketPath.contains (cp 0)) = false
        ∧ payload.length ≤ maxAgentMessageBytes
        ∧ 1 ≤ response.length ∧ response.length ≤ maxAgentMessageBytes
        ∧ ∃ rest, stream = some (field response ++ rest) := by
  constructor
  · intro h
    unfold sshAgentExchange at h
    split at h
    · cases h
    · next hpath =>
      split at h
      · cases h
      · next hrequest =>
        split at h
        · cases h
        · next sent =>
          obtain ⟨⟨header, left⟩, hheader, h⟩ := except_bind_ok.mp h
          dsimp only at h
          split at h
          · cases h
          · next hbound =>
            obtain ⟨⟨taken, rest⟩, htaken, h⟩ := except_bind_ok.mp h
            obtain rfl := Except.ok.inj h
            unfold recvExact at hheader htaken
            split at hheader
            · cases hheader
            · next hlong =>
              obtain ⟨rfl, rfl⟩ := Prod.mk.inj (Except.ok.inj hheader)
              split at htaken
              · cases htaken
              · next hlonger =>
                obtain ⟨rfl, rfl⟩ := Prod.mk.inj (Except.ok.inj htaken)
                have hword : (sent.take 4).length = 4 := by
                  rw [List.length_take]
                  omega
                have hlength : ((sent.drop 4).take (unpackU32 (sent.take 4))).length
                  = unpackU32 (sent.take 4) := by
                  rw [List.length_take]
                  omega
                dsimp only at hlength ⊢
                refine ⟨by simpa using hpath, by omega, by omega, by omega,
                  (sent.drop 4).drop (unpackU32 (sent.take 4)), ?_⟩
                unfold field
                rw [hlength, packU32_unpackU32 hword, List.append_assoc, List.take_append_drop,
                  List.take_append_drop]
  · rintro ⟨hpath, hrequest, hpositive, hbound, rest, rfl⟩
    have hsmall : response.length < 2 ^ 32 := by
      unfold maxAgentMessageBytes at hbound
      omega
    have hheader : recvExact (field response ++ rest) 4
      = .ok (packU32 response.length, response ++ rest) := by
      unfold recvExact
      rw [if_neg (by rw [List.length_append, length_field]; omega)]
      rfl
    have htaken : recvExact (response ++ rest) response.length = .ok (response, rest) := by
      unfold recvExact
      rw [if_neg (by rw [List.length_append]; omega), List.take_left, List.drop_left]
    unfold sshAgentExchange
    rw [if_neg (by rw [hpath]; decide), if_neg (by omega)]
    dsimp only
    rw [hheader]
    dsimp only [bind, Except.bind]
    rw [unpackU32_packU32 hsmall, if_neg (by omega), htaken]

/-- The signing response is taken exactly where it encodes one signature of 64 bytes. -/
theorem takeSignature_ok {response signature : Bytes} (h : takeSignature response = .ok signature) :
    response = encodeSignature signature ∧ signature.length = 64 := by
  unfold takeSignature at h
  split at h
  · cases h
  · next kind rest =>
    split at h
    · cases h
    · split at h
      · cases h
      · next hkind =>
        rw [not_not] at hkind
        obtain ⟨⟨signatureBlob, next⟩, hblob, h⟩ := except_bind_ok.mp h
        dsimp only at h
        split at h
        · cases h
        · next hnext =>
          obtain ⟨⟨algorithm, next₁⟩, halgorithm, h⟩ := except_bind_ok.mp h
          dsimp only at h
          obtain ⟨⟨taken, next₂⟩, htaken, h⟩ := except_bind_ok.mp h
          dsimp only at h
          split at h
          · cases h
          · next hparts =>
            obtain rfl := Except.ok.inj h
            rw [not_not] at hnext
            rw [not_or, not_or, not_not, not_not, not_not] at hparts
            obtain ⟨hend, rfl, hsignature⟩ := hparts
            have hkindFront : [kind] <+: kind :: rest := ⟨rest, rfl⟩
            obtain ⟨hwhole, hlength, -⟩ := takeSshString_behind hkindFront hblob
            have hresponse := hwhole.eq_of_length (by rw [← hlength, hnext])
            obtain ⟨hfront, rfl, -⟩ := takeSshString_behind List.nil_prefix halgorithm
            obtain ⟨hboth, hlength₂, -⟩ := takeSshString_behind hfront htaken
            have hsignatureBlob := hboth.eq_of_length (by rw [← hlength₂, hend])
            refine ⟨?_, hsignature⟩
            rw [← hresponse, ← hsignatureBlob, hkind]
            rfl

/-- An identity answer is accepted exactly where the agent sent the encoding of such a list. -/
theorem requireAgentIdentity_ok_iff {socketPath : PyStr} {expectedBlob : Bytes}
    {stream : Option Bytes} :
    requireAgentIdentity socketPath expectedBlob stream = .ok ()
      ↔ (socketPath.isEmpty || socketPath.contains (cp 0)) = false
        ∧ ∃ identities rest, stream = some (field (encodeIdentities identities) ++ rest)
          ∧ (encodeIdentities identities).length ≤ maxAgentMessageBytes
            ∧ IsIdentityList expectedBlob identities := by
  unfold requireAgentIdentity
  rw [except_bind_ok]
  constructor
  · rintro ⟨response, hexchange, hcheck⟩
    obtain ⟨hpath, -, -, hbound, rest, hstream⟩ := sshAgentExchange_ok_iff.mp hexchange
    obtain ⟨identities, rfl, hlist⟩ := checkIdentities_ok_iff.mp hcheck
    exact ⟨hpath, identities, rest, hstream, hbound, hlist⟩
  · rintro ⟨hpath, identities, rest, hstream, hbound, hlist⟩
    have hpositive : 1 ≤ (encodeIdentities identities).length := by
      unfold encodeIdentities
      rw [List.length_cons]
      omega
    exact ⟨encodeIdentities identities,
      sshAgentExchange_ok_iff.mpr ⟨hpath, by decide, hpositive, hbound, rest, hstream⟩,
      checkIdentities_ok_iff.mpr ⟨identities, rfl, hlist⟩⟩

/-- A signature that is returned was sent alone, has 64 bytes and verifies, after the key was
found. -/
theorem signWithConfirmedSshAgent_ok {C : Crypto} {canonicalReceipt publicKey signature : Bytes}
    {socketPath : PyStr}
    {identities signing : Option Bytes}
    (h : signWithConfirmedSshAgent C canonicalReceipt publicKey socketPath identities signing
      = .ok signature) :
    publicKey.length = 32
      ∧ requireAgentIdentity socketPath (field sshEd25519 ++ field publicKey) identities = .ok ()
      ∧ (∃ rest, signing = some (field (encodeSignature signature) ++ rest))
      ∧ (encodeSignature signature).length ≤ maxAgentMessageBytes
      ∧ signature.length = 64 ∧ C.verifies publicKey signature canonicalReceipt = true := by
  unfold signWithConfirmedSshAgent at h
  obtain ⟨keyBlob, hkey, h⟩ := except_bind_ok.mp h
  obtain ⟨u, hidentity, h⟩ := except_bind_ok.mp h
  obtain ⟨request, hrequest, h⟩ := except_bind_ok.mp h
  obtain ⟨response, hexchange, h⟩ := except_bind_ok.mp h
  obtain ⟨taken, htaken, h⟩ := except_bind_ok.mp h
  split at h
  · next hverifies =>
    obtain rfl := Except.ok.inj h
    obtain ⟨hresponse, hlength⟩ := takeSignature_ok htaken
    obtain ⟨-, -, -, hbound, hsent⟩ := sshAgentExchange_ok_iff.mp hexchange
    rw [hresponse] at hbound hsent
    have hpublic : publicKey.length = 32 ∧ keyBlob = field sshEd25519 ++ field publicKey := by
      unfold ed25519KeyBlob at hkey
      split at hkey
      · cases hkey
      · next hsize =>
        rw [not_not] at hsize
        rw [sshString_ok (by decide), sshString_ok (by rw [hsize]; decide)] at hkey
        exact ⟨hsize, (Except.ok.inj hkey).symm⟩
    refine ⟨hpublic.1, ?_, hsent, hbound, hlength, hverifies⟩
    rw [← hpublic.2]
    exact hidentity
  · cases h

/-- The answers of the agent are parsed exactly: an identity response is accepted if and only if it
encodes a list of at most 128 identities with the expected key once; a signature is accepted only
where the response encodes it alone, with 64 bytes that verify; and taking a string undoes writing
it. -/
theorem agent_answers_exact :
    (∀ expectedBlob response, checkIdentities expectedBlob response = .ok ()
      ↔ ∃ identities, response = encodeIdentities identities
        ∧ IsIdentityList expectedBlob identities)
    ∧ (∀ socketPath expectedBlob stream, requireAgentIdentity socketPath expectedBlob
      stream = .ok ()
      ↔ (socketPath.isEmpty || socketPath.contains (cp 0)) = false
        ∧ ∃ identities rest, stream = some (field (encodeIdentities identities) ++ rest)
          ∧ (encodeIdentities identities).length ≤ maxAgentMessageBytes
            ∧ IsIdentityList expectedBlob identities)
    ∧ (∀ C canonicalReceipt publicKey socketPath identities signing signature,
      signWithConfirmedSshAgent C canonicalReceipt publicKey socketPath identities signing
      = .ok signature →
      (∃ rest, signing = some (field (encodeSignature signature) ++ rest))
        ∧ signature.length = 64 ∧ C.verifies publicKey signature canonicalReceipt = true)
    ∧ ∀ value, value.length ≤ maxAgentMessageBytes → ∃ written, sshString value = .ok written
      ∧ ∀ front rest, takeSshString (front ++ written ++ rest) front.length
        = .ok (value, front.length + written.length) := by
  refine ⟨fun _ _ => checkIdentities_ok_iff, fun _ _ _ => requireAgentIdentity_ok_iff, ?_, ?_⟩
  · intro C canonicalReceipt publicKey socketPath identities signing signature h
    obtain ⟨-, -, hsent, -, hlength, hverifies⟩ := signWithConfirmedSshAgent_ok h
    exact ⟨hsent, hlength, hverifies⟩
  · intro value hvalue
    exact ⟨field value, sshString_ok hvalue, fun front rest =>
      takeSshString_field front rest hvalue⟩

/-! ## An agent with two keys -/

def ownerKey : Bytes := (b64decode (lit "+FlVydW0y5POmz2U1Z+eCLH2PXD11bxWrd4+9DMqXN8=")).getD []

/-- What the owner signs. -/
def ownerReceipt : Bytes := (lit "receipt").map fun c => byte c.val

/-- The real signature of the receipt by this key. -/
def ownerSignature : Bytes :=
  (b64decode (lit "bUamB/vOq6hI6+eA7mWBXx4+7hN2JaNMG8iA3wtX+x4iTLVwMQOPpRLVjnJocjwHyFQQBEoBGANr1YAO/X0eDQ==")).getD []

def ownerCrypto : Crypto := .ofTables [] [(ownerKey, ownerSignature, some ownerReceipt)]

def ownerBlob : Bytes := field sshEd25519 ++ field ownerKey

/-- A key of another kind, and the owner's, each with its comment. -/
def agentKeys : List (Bytes × Bytes) :=
  [(field ((lit "ssh-rsa").map fun c => byte c.val), (lit "backup").map fun c => byte c.val),
    (ownerBlob, (lit "owner@host").map fun c => byte c.val)]

/-- What the agent sends on its two connections; something follows the second answer. -/
def agentIdentities : Bytes := field (encodeIdentities agentKeys)

def agentSigning : Bytes := field (encodeSignature ownerSignature) ++ [byte 0]

theorem ownerReceipt_signed :
    (signWithConfirmedSshAgent ownerCrypto ownerReceipt ownerKey (lit "/run/agent")
      (some agentIdentities)
      (some agentSigning)).isOk = true := by
  decide +kernel

/-- The list of the two keys is accepted; the receipt is signed, by a signature of 64 bytes that
verifies; and a key is taken from between two other strings. -/
theorem agent_answers_exact_sample :
    checkIdentities ownerBlob (encodeIdentities agentKeys) = .ok ()
      ∧ (∃ signature, signWithConfirmedSshAgent ownerCrypto ownerReceipt ownerKey (lit "/run/agent")
          (some agentIdentities) (some agentSigning) = .ok signature
        ∧ signature.length = 64 ∧ ownerCrypto.verifies ownerKey signature ownerReceipt = true)
      ∧ ∃ written, sshString ownerKey = .ok written
        ∧ takeSshString (field sshEd25519 ++ written ++ field sshEd25519) (field sshEd25519).length
          = .ok (ownerKey, (field sshEd25519).length + written.length) := by
  refine ⟨?_, ?_, ?_⟩
  · refine (agent_answers_exact.1 ownerBlob _).mpr
      ⟨agentKeys, rfl, by decide, ?_, by decide +kernel⟩
    have hbounded : agentKeys.all (fun i => i.1.length ≤ maxAgentMessageBytes
      && i.2.length ≤ maxAgentMessageBytes)
        = true := by
      decide +kernel
    intro i hi
    simpa using List.all_eq_true.mp hbounded i hi
  · obtain ⟨signature, hsignature⟩ := exists_of_isOk ownerReceipt_signed
    obtain ⟨-, hlength, hverifies⟩ := agent_answers_exact.2.2.1 _ _ _ _ _ _ _ hsignature
    exact ⟨signature, hsignature, hlength, hverifies⟩
  · obtain ⟨written, hwritten, htake⟩ := agent_answers_exact.2.2.2 ownerKey (by decide +kernel)
    exact ⟨written, hwritten, htake (field sshEd25519) (field sshEd25519)⟩

end SddGov.Owner
