import SddGov.Broker.Client
import SddGov.Broker.Scan

/-!
# What becomes of a request line

The line an agent sends always parses: whatever the nonce holds, `json.dumps`
escapes the control characters, so the line has one line break, and reading it
back gives the members it was made of (`parseRequest_requestLine`). Whether the
Broker then acts on it depends on the three fields alone (`request?_members`).

A line within the size limit that reaches the Broker in time, in any chunks,
is received as it was sent (`receive_delivered`).
-/

namespace SddGov.Broker

open SddGov.Effect SddGov.Python

/-! ## The request line -/

section Line

variable (nonce receiptSha256 operationPayloadSha256 : PyStr)

/-- The canonical text of a request. -/
def requestText : PyStr :=
  lit "\x7b\"action\":\"consume\",\"nonce\":" ++ stringText nonce
    ++ lit ",\"operation_payload_sha256\":" ++ stringText operationPayloadSha256
    ++ lit ",\"receipt_sha256\":" ++ stringText receiptSha256 ++ lit "\x7d"

/-- The members of a request, sorted. -/
def sortedMembers : Members :=
  [(lit "action", .str (lit "consume")), (lit "nonce", .str nonce),
    (lit "operation_payload_sha256", .str operationPayloadSha256),
    (lit "receipt_sha256", .str receiptSha256)]

theorem dumps_request : dumps (.obj (requestMembers nonce receiptSha256 operationPayloadSha256))
    = some (requestText nonce receiptSha256 operationPayloadSha256) := by
  show some (lit "\x7b" ++ joinComma ([(lit "action", stringText (lit "consume")),
    (lit "nonce", stringText nonce),
    (lit "operation_payload_sha256", stringText operationPayloadSha256),
    (lit "receipt_sha256", stringText receiptSha256)].map memberText) ++ lit "\x7d") = _
  unfold requestText
  simp only [List.map_cons, List.map_nil, joinComma, memberText, List.append_assoc]
  rfl

theorem noControl_requestText :
    NoControl (requestText nonce receiptSha256 operationPayloadSha256) := by
  have hlit : ∀ s : String, (lit s).all (fun c => 0x20 ≤ c.val && c.val < 0x80) = true →
      NoControl (lit s) := fun s h => (plain_lit h).noControl
  unfold requestText
  exact ((((((hlit _ (by decide)).append (noControl_stringText _)).append
    (hlit _ (by decide))).append (noControl_stringText _)).append (hlit _ (by decide))).append
    (noControl_stringText _)).append (hlit _ (by decide))

variable {nonce receiptSha256 operationPayloadSha256}

/-- A line is built unless one of its fields has no UTF-8 form. -/
theorem requestLine_isSome : (requestLine nonce receiptSha256 operationPayloadSha256).isSome
    = ((utf8Encode nonce).isSome && (utf8Encode receiptSha256).isSome
      && (utf8Encode operationPayloadSha256).isSome) := by
  have h1 : (utf8Encode (lit "\x7b\"action\":\"consume\",\"nonce\":")).isSome = true := by decide
  have h2 : (utf8Encode (lit ",\"operation_payload_sha256\":")).isSome = true := by decide
  have h3 : (utf8Encode (lit ",\"receipt_sha256\":")).isSome = true := by decide
  have h4 : (utf8Encode (lit "\x7d")).isSome = true := by decide
  unfold requestLine canonicalBytes
  rw [Option.isSome_map, dumps_request, Option.bind_some]
  unfold requestText
  simp only [utf8Encode_append_isSome, stringText_encodes, h1, h2, h3, h4, Bool.true_and,
    Bool.and_true]
  cases (utf8Encode nonce).isSome <;> cases (utf8Encode receiptSha256).isSome
    <;> cases (utf8Encode operationPayloadSha256).isSome <;> rfl

/-- A request line is one line. -/
theorem requestLine_isLine {line : Bytes}
    (h : requestLine nonce receiptSha256 operationPayloadSha256 = some line) :
    ∃ body, line = body ++ [newline] ∧ newline ∉ body
      ∧ utf8Encode (requestText nonce receiptSha256 operationPayloadSha256) = some body := by
  unfold requestLine canonicalBytes at h
  rw [dumps_request, Option.bind_some] at h
  obtain ⟨body, hbody, rfl⟩ := Option.map_eq_some_iff.mp h
  refine ⟨body, rfl, ?_, hbody⟩
  intro hmem
  obtain ⟨c, hc, hv⟩ := byte_lt_mem_utf8Encode hbody hmem (by decide)
  have := noControl_requestText nonce receiptSha256 operationPayloadSha256 c hc
  simp [newline] at hv
  omega

theorem count_line {body : Bytes} (h : newline ∉ body) :
    (body ++ [newline]).count newline = 1 := by
  rw [List.count_append, List.count_eq_zero_of_not_mem h]
  simp

/-- **A request line reads back** as the members it was made of. -/
theorem parseRequest_requestLine [Nesting] {line : Bytes}
    (h : requestLine nonce receiptSha256 operationPayloadSha256 = some line) :
    parseRequest line = .ok (sortedMembers nonce receiptSha256 operationPayloadSha256) := by
  obtain ⟨body, rfl, hnew, hbody⟩ := requestLine_isLine h
  have hparse : loads Nesting.request (requestText nonce receiptSha256 operationPayloadSha256)
      = .ok (.obj (sortedMembers nonce receiptSha256 operationPayloadSha256)) := by
    unfold loads
    have hdepth :
        depth (.obj (requestMembers nonce receiptSha256 operationPayloadSha256)) = 1 := rfl
    rw [parse_dumps (dumps_request nonce receiptSha256 operationPayloadSha256)
      (by rw [hdepth]; exact Nesting.request_pos)]
    rfl
  unfold parseRequest
  rw [if_neg, List.dropLast_concat, utf8Decode_utf8Encode hbody]
  · dsimp only
    rw [hparse]
  · rw [count_line hnew]
    simp

/-- What the Broker does with the members of a request depends on its three fields. -/
theorem request?_members :
    request? (sortedMembers nonce receiptSha256 operationPayloadSha256)
      = if validNonce nonce && isSha256 receiptSha256 && isSha256 operationPayloadSha256 then
          some (.consume nonce receiptSha256 operationPayloadSha256)
        else none := by
  generalize hm : sortedMembers nonce receiptSha256 operationPayloadSha256 = m
  have h0 : pyEq (.obj m) (.obj [(lit "action", .str (lit "health"))]) = false := by
    rw [← hm]; rfl
  have h1 : keysEq m requestFields = true := by rw [← hm]; rfl
  have h2 : get (lit "action") m = .str (lit "consume") := by rw [← hm]; rfl
  have h3 : get (lit "nonce") m = .str nonce := by rw [← hm]; rfl
  have h4 : get (lit "receipt_sha256") m = .str receiptSha256 := by rw [← hm]; rfl
  have h5 : get (lit "operation_payload_sha256") m = .str operationPayloadSha256 := by
    rw [← hm]; rfl
  have h6 : pyEq (.str (lit "consume")) (.str (lit "consume")) = true :=
    (pyEq_str_right _ _).mpr rfl
  unfold request? validNonceFields
  rw [h0, h1, h2, h3, h4, h5, h6]
  simp only [strWith]
  by_cases h : (validNonce nonce && isSha256 receiptSha256 && isSha256 operationPayloadSha256)
    = true
  · simp [h]
  · simp [h]

/-- A line for a valid nonce is within the size limit. -/
theorem length_requestLine (hn : validNonce nonce = true) (hr : isSha256 receiptSha256 = true)
    (ho : isSha256 operationPayloadSha256 = true) {line : Bytes}
    (h : requestLine nonce receiptSha256 operationPayloadSha256 = some line) :
    line.length ≤ maxRequestBytes := by
  obtain ⟨hnp, hnl⟩ := plain_of_validNonce hn
  obtain ⟨hrp, hrl⟩ := plain_of_isSha256 hr
  obtain ⟨hop, hol⟩ := plain_of_isSha256 ho
  obtain ⟨body, rfl, -, hbody⟩ := requestLine_isLine h
  have hplain : Plain (requestText nonce receiptSha256 operationPayloadSha256) := by
    unfold requestText
    exact ((((((plain_lit (by decide)).append hnp.stringText).append
      (plain_lit (by decide))).append hop.stringText).append (plain_lit (by decide))).append
      hrp.stringText).append (plain_lit (by decide))
  rw [utf8Encode_ascii hplain.isAscii] at hbody
  obtain rfl := Option.some.inj hbody
  have h2 := length_stringText hnp
  have h3 := length_stringText hop
  have h4 := length_stringText hrp
  have e1 : (lit "\x7b\"action\":\"consume\",\"nonce\":").length = 28 := rfl
  have e2 : (lit ",\"operation_payload_sha256\":").length = 28 := rfl
  have e3 : (lit ",\"receipt_sha256\":").length = 18 := rfl
  have e4 : (lit "\x7d").length = 1 := rfl
  rw [List.length_append, List.length_map, List.length_singleton]
  unfold requestText
  simp only [List.length_append, e1, e2, e3, e4, maxRequestBytes]
  omega

end Line

/-! ## Delivery -/

/-- The bytes of the chunks that were read. -/
def chunksOf : List (Event socketSig) → List Bytes
  | [] => []
  | ⟨.recv _, .ok chunk⟩ :: t => chunk :: chunksOf t
  | _ :: t => chunksOf t

/-- The readings of the clock. -/
def clockOf : List (Event socketSig) → List Int
  | [] => []
  | ⟨.monotonic, now⟩ :: t => now :: clockOf t
  | _ :: t => clockOf t

/-- No read fails. -/
def noSocketError : List (Event socketSig) → Prop
  | [] => True
  | ⟨.recv _, .error _⟩ :: _ => False
  | _ :: t => noSocketError t

/-- The client sends `line` and half-closes, and the Broker reads all of it before
its deadline: every chunk but the last holds something, and the last is the end. -/
structure Delivers (line : Bytes) (t : List (Event socketSig)) : Prop where
  intact : noSocketError t
  chunks : ∃ sent : List Bytes, chunksOf t = sent ++ [[]] ∧ sent.flatten = line ∧ [] ∉ sent
  timely : ∀ start rest, clockOf t = start :: rest → ∀ now ∈ rest, now < start + requestReadDeadline

/-- The reading loop on what is left of the line. -/
theorem receiveLoop_delivers {deadline : Int} {line : Bytes} (hl : line.length ≤ maxRequestBytes) :
    ∀ (fuel : Nat) (value : Bytes) (sent : List Bytes) {t : List (Event socketSig)} {x},
      Runs (receiveLoop deadline fuel value) t x → value ++ sent.flatten = line → [] ∉ sent →
      line.length < fuel + value.length → noSocketError t → chunksOf t = sent ++ [[]] →
      (∀ now ∈ clockOf t, now < deadline) → x = checkRequest line := by
  intro fuel
  induction fuel with
  | zero =>
    intro value sent t x _ hline _ hf _ _ _
    rw [← hline, List.length_append] at hf
    omega
  | succ fuel ih =>
    intro value sent t x h hline hne hf hok hchunks htime
    obtain ⟨now, t, rfl, h1⟩ := runs_call h
    have hnow : now < deadline := htime now (List.mem_cons_self ..)
    rw [Prog.handle_ret, if_neg (Int.not_le.mpr (Int.sub_pos_of_lt hnow))] at h1
    obtain ⟨r, t, rfl, h2⟩ := runs_call h1
    cases r with
    | error e => exact absurd hok (by simp [noSocketError])
    | ok chunk =>
      have hchunks : chunk :: chunksOf t = sent ++ [[]] := hchunks
      cases sent with
      | nil =>
        -- the end of the stream
        obtain ⟨rfl, -⟩ := List.cons.inj hchunks
        rw [List.flatten_nil, List.append_nil] at hline
        have h3 : Runs (Prog.ofExcept (checkRequest value)) t x := h2
        rw [(runs_ofExcept h3).2, hline]
      | cons c sent =>
        rw [List.cons_append] at hchunks
        obtain ⟨rfl, hrest⟩ := List.cons.inj hchunks
        rw [List.mem_cons, not_or] at hne
        rw [List.flatten_cons, ← List.append_assoc] at hline
        have hle : (value ++ chunk).length ≤ maxRequestBytes := by
          rw [← hline, List.length_append] at hl
          omega
        have hpos : 0 < chunk.length := List.length_pos_iff.mpr (Ne.symm hne.1)
        have h3 : Runs (if chunk = [] then Prog.ofExcept (checkRequest value)
            else if maxRequestBytes < (value ++ chunk).length then
              Prog.ofExcept (checkRequest (value ++ chunk))
            else receiveLoop deadline fuel (value ++ chunk)) t x := h2
        rw [if_neg (Ne.symm hne.1), if_neg (by omega)] at h3
        refine ih (value ++ chunk) sent h3 hline hne.2 ?_ hok hrest fun n hn => htime n ?_
        · rw [List.length_append]
          omega
        · exact List.mem_cons_of_mem _ hn

/-- **Delivery**: a request line within the limit is received as it was sent. -/
theorem receive_delivered {line : Bytes} (hl : line.length ≤ maxRequestBytes)
    {t : List (Event socketSig)} {x} (h : Runs receiveRequest t x) (hd : Delivers line t) :
    x = checkRequest line := by
  obtain ⟨start, t, rfl, h1⟩ := runs_call h
  obtain ⟨sent, hchunks, hflat, hne⟩ := hd.chunks
  have h2 : Runs (receiveLoop (start + requestReadDeadline) (maxRequestBytes + 1) []) t x := h1
  exact receiveLoop_delivers hl _ [] sent h2 hflat hne (by simp; omega) hd.intact hchunks
    (hd.timely start _ rfl)

/-- A request line within the limit passes the check of what was read. -/
theorem checkRequest_requestLine {nonce receiptSha256 operationPayloadSha256 : PyStr}
    {line : Bytes} (h : requestLine nonce receiptSha256 operationPayloadSha256 = some line)
    (hl : line.length ≤ maxRequestBytes) : checkRequest line = .ok line := by
  obtain ⟨body, rfl, hnew, -⟩ := requestLine_isLine h
  unfold checkRequest
  rw [if_neg (by omega), if_neg]
  rw [count_line hnew]
  simp

end SddGov.Broker
