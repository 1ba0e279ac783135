import SddGov.Python.JsonSize
import SddGov.TrustedRunner.Bundle

/-!
# The answer to an executed operation

`_run_child` reads the file the child leaves, `execute` puts what it says into
the result, `_sign_result` wraps the result into the envelope, and
`serve_connected_socket` sends the envelope if it is not too large.

Everything in the envelope but three numbers is the runner's own. The counts of
tokens print as they were read, but the cost prints in fixed point, and nothing
bounds how deep its exponent may be: a cost of `1E-200000` is within the budget
and has 200002 characters. The operation has then taken place and no answer is
sent. `answer_iff` says which results leave room.
-/

namespace SddGov.TrustedRunner

open SddGov.Python
open SddGov.Autonomy (duplicateName)

/-! ## What the child says -/

/-- `_strict_json_bytes`; a text that is also malformed behind a second key is reported as such. -/
def strictJson (raw : Bytes) (label : String) : Except RunnerError Members :=
  let invalid : Except RunnerError Members := .error (.violation (lit label ++ lit "_invalid"))
  match utf8Decode raw with
  | none => invalid
  | some text =>
    match parse recursionLimit text with
    | .error .decode => invalid
    | .error e => .error (.raised (.ofJson e))
    | .ok v =>
      if (duplicateName v).isSome then violation "json_duplicate_key_denied"
      else
        match v with
        | .obj m => .ok m
        | _ => invalid

/-- What a valid result of the child says. -/
structure ChildResult where
  outcome : PyStr
  inferenceApplied : Bool
  inputTokens : Option Int
  outputTokens : Option Int
  cost : Option FiniteDecimal
  deriving DecidableEq

def childFields : List PyStr :=
  ["contract_version", "outcome", "inference_applied", "input_tokens", "output_tokens",
    "cost_usd"].map lit

/-- One of the two outcomes. -/
def readOutcome (v : Json) : Except RunnerError PyStr := do
  let known ← uncaught (memberOfSet v (["completed", "stopped_fail_closed"].map lit))
  check known "child_result_outcome_invalid"
  match v with
  | .str outcome => .ok outcome
  | _ => violation "child_result_outcome_invalid"

def readApplied : Json → Except RunnerError Bool
  | .bool applied => .ok applied
  | _ => violation "child_result_usage_invalid"

/-- A count of tokens: nothing, or a natural number that is no boolean. -/
def readTokens : Json → Except RunnerError (Option Int)
  | .null => .ok none
  | .int n => if n < 0 then violation "child_result_usage_invalid" else .ok (some n)
  | _ => violation "child_result_usage_invalid"

/-- `str(value)` of a float. -/
def floatStr : PyFloat → PyStr
  | .finite negative mag => floatText negative mag
  | .inf negative => if negative then lit "-inf" else lit "inf"
  | .nan => lit "nan"

/-- `Decimal(str(value))`; the text of a boolean, a list or an object is no number. -/
def decimalOf : Json → Option DecimalNumber
  | .str s => DecimalNumber.ofText s
  | .int n => DecimalNumber.ofText (intText n)
  | .float x => DecimalNumber.ofText (floatStr x)
  | _ => none

/-- `_MAX_COST_USD` -/
def maxCost : ℚ := 1 / 4

/-- A finite number from zero to the largest cost. -/
def withinBudget : DecimalNumber → Option FiniteDecimal
  | .finite d => if 0 ≤ d.value ∧ d.value ≤ maxCost then some d else none
  | _ => none

/-- `cost_usd` -/
def readCost : Json → Except RunnerError (Option FiniteDecimal)
  | .null => .ok none
  | v =>
    match decimalOf v with
    | none => violation "child_result_usage_invalid"
    | some cost =>
      match withinBudget cost with
      | none => violation "child_result_budget_exceeded"
      | some d => .ok (some d)

/-- The part of `_run_child` that reads the result of a child which ended well. -/
def childResult (b : Bootstrap) (raw : Bytes) : Except RunnerError ChildResult := do
  let m ← strictJson raw "child_result"
  check (keysEq m childFields && pyEq (get (lit "contract_version") m) (.str (lit "0.1")))
    "child_result_contract_invalid"
  let outcome ← readOutcome (get (lit "outcome") m)
  let applied ← readApplied (get (lit "inference_applied") m)
  let inputTokens ← readTokens (get (lit "input_tokens") m)
  let outputTokens ← readTokens (get (lit "output_tokens") m)
  let cost ← readCost (get (lit "cost_usd") m)
  check (!outputTokens.any fun n => decide ((maxOutputTokens : Int) < n))
    "child_result_budget_exceeded"
  check (b.mode != .rehearsal || !applied) "rehearsal_inference_denied"
  .ok ⟨outcome, applied, inputTokens, outputTokens, cost⟩

/-! ## The result -/

/-- What `execute` has seen of a run besides the result of the child. -/
structure ChildRun where
  operationId : PyStr
  planHash : PyStr
  stdoutHash : PyStr
  stderrHash : PyStr
  durationMs : Nat
  /-- the secret is overwritten, and the directory of the run is gone -/
  zeroized : Bool
  removed : Bool

def tokensJson : Option Int → Json
  | none => .null
  | some n => .int n

/-- `None` or `format(cost, "f")` -/
def costJson : Option FiniteDecimal → Json
  | none => .null
  | some d => .str d.fixedText

/-- `result` as `execute` starts with it. -/
def initialResult (b : Bootstrap) : Members :=
  [(lit "contract_version", .str (lit "0.1")), (lit "runner_id", .str b.runnerId),
    (lit "operation_id", .null),
    (lit "plan_hash", .null), (lit "outcome", .str (lit "stopped_fail_closed")),
    (lit "reason", .str (lit "request_not_validated")), (lit "approval_consumed", .bool false),
    (lit "credential_material_opened", .bool false), (lit "runtime_started", .bool false),
    (lit "inference_applied", .bool false), (lit "timed_out", .bool false),
      (lit "return_code", .null),
    (lit "input_tokens", .null), (lit "output_tokens", .null), (lit "cost_usd", .null),
      (lit "stdout_hash", .null),
    (lit "stderr_hash", .null), (lit "duration_ms", .int 0),
      (lit "credential_material_zeroized", .bool true),
    (lit "isolation_root_removed", .bool true), (lit "descriptors_closed", .bool true),
    (lit "promotion_applied", .bool false), (lit "gate_enforce_applied", .bool false),
    (lit "deployment_applied", .bool false)]

/-- `observation` of a child that ended well. -/
def observation (run : ChildRun) (child : ChildResult) : Members :=
  [(lit "runtime_started", .bool true), (lit "timed_out", .bool false), (lit "return_code", .int 0),
    (lit "stdout_hash", .str run.stdoutHash), (lit "stderr_hash", .str run.stderrHash),
    (lit "duration_ms", .int run.durationMs), (lit "descriptors_closed", .bool true),
    (lit "inference_applied", .bool child.inferenceApplied),
      (lit "input_tokens", tokensJson child.inputTokens),
    (lit "output_tokens", tokensJson child.outputTokens), (lit "cost_usd", costJson child.cost),
    (lit "child_outcome", .str child.outcome)]

/-- `dict.update` -/
def update (m news : Members) : Members := news.foldl (fun m kv => setMember kv.1 kv.2 m) m

/-- What the outcome of the child makes of the result. -/
def conclude (child : ChildResult) (result : Members) : Members :=
  if child.outcome ≠ lit "completed" then setMember (lit "reason")
    (.str (lit "child_stopped_fail_closed")) result
  else
    setMember (lit "reason") (.str (lit "exact_operation_completed"))
      (setMember (lit "outcome") (.str (lit "completed")) result)

/-- The `finally` block. -/
def closeRun (run : ChildRun) (result : Members) : Members :=
  let result := setMember (lit "credential_material_zeroized") (.bool run.zeroized) result
  let result := setMember (lit "isolation_root_removed") (.bool run.removed) result
  -- a secret or a directory that is left behind takes the outcome back
  if !run.zeroized || !run.removed then
    setMember (lit "reason") (.str (lit "rollback_incomplete"))
      (setMember (lit "outcome") (.str (lit "stopped_fail_closed")) result)
  else result

/-- The result of `execute` once the result of the child is accepted. -/
def executedResult (b : Bootstrap) (run : ChildRun) (child : ChildResult) : Members :=
  let result := initialResult b
  let result := setMember (lit "operation_id") (.str run.operationId) result
  let result := setMember (lit "plan_hash") (.str run.planHash) result
  let result := setMember (lit "approval_consumed") (.bool true) result
  let result := setMember (lit "credential_material_opened") (.bool true) result
  closeRun run (conclude child (update result (observation run child)))

/-! ## The envelope -/

/-- The character of a base64 value. -/
def b64Char (n : Nat) : CodePoint :=
  if n < 26 then cp (0x41 + n)
  else if n < 52 then cp (0x61 + (n - 26))
  else if n < 62 then cp (0x30 + (n - 52))
  else if n = 62 then cp 0x2B
  else cp 0x2F

/-- `base64.b64encode` -/
def b64encode : Bytes → PyStr
  | a :: b :: c :: rest =>
    b64Char (a.val / 4) :: b64Char (a.val % 4 * 16 + b.val / 16)
      :: b64Char (b.val % 16 * 4 + c.val / 64)
      :: b64Char (c.val % 64) :: b64encode rest
  | [a, b] => [b64Char (a.val / 4), b64Char (a.val % 4 * 16 + b.val / 16),
      b64Char (b.val % 16 * 4), padding]
  | [a] => [b64Char (a.val / 4), b64Char (a.val % 4 * 16), padding, padding]
  | [] => []

/-- The signed envelope around a result. -/
def envelope (result : Members) (signature : PyStr) : Json :=
  .obj [(lit "schema_version", .str (lit "0.1")), (lit "algorithm", .str (lit "ed25519")),
    (lit "result", .obj result),
    (lit "signature", .str signature)]

/-- `_sign_result` with the key at hand; none is the `UnicodeEncodeError` of a result without
canonical bytes. -/
def signResult (sign : Bytes → Bytes) (result : Members) : Option Json :=
  (canonicalBytes (.obj result)).map fun raw => envelope result (b64encode (sign raw))

/-- `_MAX_REQUEST_BYTES` -/
def maxRequestBytes : Nat := 128 * 1024

/-- What `serve_connected_socket` sends. -/
def answer (sign : Bytes → Bytes) (result : Members) : Except RunnerError Bytes :=
  match signResult sign result with
  | none => .error (.raised (valueError "canonical JSON"))
  | some signed =>
    match canonicalBytes signed with
    | none => .error (.raised (valueError "canonical JSON"))
    | some encoded =>
      if maxRequestBytes < encoded.length then violation "runner_result_too_large" else .ok encoded

/-! ## What was accepted -/

/-- A cost within the budget is between nothing and the largest one. -/
theorem withinBudget_eq {c : DecimalNumber} {d : FiniteDecimal} (h : withinBudget c = some d) :
    0 ≤ d.value ∧ d.value ≤ maxCost := by
  cases c with
  | finite e =>
    rw [withinBudget] at h
    split at h
    · next hb =>
      obtain rfl := Option.some.inj h
      exact hb
    · exact absurd h (by simp)
  | infinite => exact absurd h (by simp [withinBudget])
  | nan => exact absurd h (by simp [withinBudget])

/-- A cost that is read is within the budget. -/
theorem readCost_eq {v : Json} {d : FiniteDecimal} (h : readCost v = .ok (some d)) :
    0 ≤ d.value ∧ d.value ≤ maxCost := by
  unfold readCost at h
  split at h
  · exact absurd (Except.ok.inj h) (by simp)
  · split at h
    · exact absurd h (by simp [violation])
    · split at h
      · exact absurd h (by simp [violation])
      · next hb =>
        obtain rfl := Option.some.inj (Except.ok.inj h)
        exact withinBudget_eq hb

/-- An accepted cost is a number from zero to the largest cost. -/
theorem cost_bounds {b : Bootstrap} {raw : Bytes} {child : ChildResult}
    (h : childResult b raw = .ok child)
    {d : FiniteDecimal} (hd : child.cost = some d) : 0 ≤ d.value ∧ d.value ≤ maxCost := by
  obtain ⟨m, _, h⟩ := except_bind_ok.mp h
  obtain ⟨_, _, h⟩ := except_bind_ok.mp h
  obtain ⟨outcome, _, h⟩ := except_bind_ok.mp h
  obtain ⟨applied, _, h⟩ := except_bind_ok.mp h
  obtain ⟨inputTokens, _, h⟩ := except_bind_ok.mp h
  obtain ⟨outputTokens, _, h⟩ := except_bind_ok.mp h
  obtain ⟨cost, hcost, h⟩ := except_bind_ok.mp h
  obtain ⟨_, _, h⟩ := except_bind_ok.mp h
  obtain ⟨_, _, h⟩ := except_bind_ok.mp h
  obtain rfl := Except.ok.inj h
  obtain rfl : cost = some d := hd
  exact readCost_eq hcost

/-! ## The size of the answer -/

/-- A count as it prints. -/
def tokensSize (tokens : Option Int) : ℕ∞ := jsonSize (tokensJson tokens)

/-- A cost up to the largest one as it prints, with its quotes. -/
def costSize : Option FiniteDecimal → Nat
  | none => 4
  | some d => d.fixedLength + 2

theorem jsonSize_costJson {cost : Option FiniteDecimal}
    (h : ∀ d, cost = some d → 0 ≤ d.value ∧ d.value ≤ maxCost) :
    jsonSize (costJson cost) = costSize cost := by
  cases cost with
  | none => exact jsonSize_null
  | some d =>
    obtain ⟨h0, h1⟩ := h d rfl
    rw [costJson, jsonSize_str, textSize_stringText d.isPlain_fixedText,
      FiniteDecimal.length_fixedText h0 h1]
    rfl

theorem isPlain_b64Char (n : Nat) : isPlain (b64Char n) = true := by
  unfold b64Char
  split_ifs <;> exact isPlain_cp (by omega)

theorem length_b64encode : ∀ b : Bytes, (b64encode b).length = 4 * ((b.length + 2) / 3)
  | [] => rfl
  | [_] => by simp [b64encode]
  | [_, _] => by simp [b64encode]
  | a :: b :: c :: rest => by
    rw [b64encode]
    simp only [List.length_cons, length_b64encode rest]
    omega

/-- Base64 is written in plain characters. -/
theorem isPlain_b64encode : ∀ b : Bytes, ∀ c ∈ b64encode b, isPlain c = true
  | [], c, hc => absurd hc (by simp [b64encode])
  | [_], c, hc => by
    simp only [b64encode, List.mem_cons, List.not_mem_nil, or_false] at hc
    rcases hc with rfl | rfl | rfl | rfl
    · exact isPlain_b64Char _
    · exact isPlain_b64Char _
    · rfl
    · rfl
  | [_, _], c, hc => by
    simp only [b64encode, List.mem_cons, List.not_mem_nil, or_false] at hc
    rcases hc with rfl | rfl | rfl | rfl
    · exact isPlain_b64Char _
    · exact isPlain_b64Char _
    · exact isPlain_b64Char _
    · rfl
  | _ :: _ :: _ :: rest, c, hc => by
    rw [b64encode] at hc
    simp only [List.mem_cons] at hc
    rcases hc with rfl | rfl | rfl | rfl | hc
    · exact isPlain_b64Char _
    · exact isPlain_b64Char _
    · exact isPlain_b64Char _
    · exact isPlain_b64Char _
    · exact isPlain_b64encode rest c hc

theorem jsonSize_version : jsonSize (.str (lit "0.1")) = (5 : Nat) := jsonSize_plain (by decide)

/-- The envelope around a result takes 159 bytes. -/
theorem jsonSize_envelope (result : Members) {signature : Bytes} (h : signature.length = 64) :
    jsonSize (envelope result (b64encode signature)) = 159 + jsonSize (.obj result) := by
  have hnames : namesSize ([lit "schema_version", lit "algorithm", lit "result", lit "signature"])
    = (50 : Nat) :=
    namesSize_plain (by decide)
  have halgorithm : jsonSize (.str (lit "ed25519")) = (9 : Nat) := jsonSize_plain (by decide)
  have hsignature : jsonSize (.str (b64encode signature)) = (90 : Nat) := by
    rw [jsonSize_str, textSize_stringText (isPlain_b64encode signature), length_b64encode, h]
  have hnil : valuesSize [] = 0 := rfl
  unfold envelope
  rw [jsonSize_obj, membersSize_split]
  simp only [keys, List.map_cons, List.map_nil, hnames, valuesSize_cons, jsonSize_version,
    halgorithm, hsignature, hnil,
    List.length_cons, List.length_nil]
  norm_num
  ring

/-- What is signed and sent, where the result has canonical bytes, is what fits. -/
theorem answer_ok_iff {sign : Bytes → Bytes} (hsign : ∀ m, (sign m).length = 64)
    (result : Members) :
    (∃ encoded, answer sign result = .ok encoded ∧ encoded.length ≤ maxRequestBytes)
      ↔ 159 + jsonSize (.obj result) ≤ maxRequestBytes := by
  unfold answer signResult
  cases hraw : canonicalBytes (.obj result) with
  | none =>
    -- nothing is signed, and no bound is kept
    rw [jsonSize_eq_top hraw]
    simp
  | some raw =>
    rw [Option.map_some, ← jsonSize_envelope result (hsign raw), jsonSize_le]
    dsimp only
    cases canonicalBytes (envelope result (b64encode (sign raw))) with
    | none => simp
    | some encoded =>
      dsimp only
      constructor
      · rintro ⟨e, he, hle⟩
        split at he
        · exact absurd he (by simp [violation])
        · obtain rfl := Except.ok.inj he
          exact ⟨encoded, rfl, hle⟩
      · rintro ⟨e, he, hle⟩
        obtain rfl := Option.some.inj he
        exact ⟨encoded, by rw [if_neg (by omega)], hle⟩

/-! ## The members of the result -/

/-- The outcome and the reason that `execute` ends with. -/
def verdict (run : ChildRun) (child : ChildResult) : PyStr × PyStr :=
  if !run.zeroized || !run.removed then (lit "stopped_fail_closed", lit "rollback_incomplete")
  else if child.outcome ≠ lit "completed" then
    (lit "stopped_fail_closed", lit "child_stopped_fail_closed")
  else (lit "completed", lit "exact_operation_completed")

/-- The result, member by member. -/
theorem executedResult_eq (b : Bootstrap) (run : ChildRun) (child : ChildResult) :
    executedResult b run child =
      [(lit "contract_version", .str (lit "0.1")), (lit "runner_id", .str b.runnerId),
        (lit "operation_id", .str run.operationId), (lit "plan_hash", .str run.planHash),
        (lit "outcome", .str (verdict run child).1), (lit "reason", .str (verdict run child).2),
        (lit "approval_consumed", .bool true), (lit "credential_material_opened", .bool true),
        (lit "runtime_started", .bool true),
        (lit "inference_applied", .bool child.inferenceApplied),
        (lit "timed_out", .bool false), (lit "return_code", .int 0),
        (lit "input_tokens", tokensJson child.inputTokens),
        (lit "output_tokens", tokensJson child.outputTokens),
        (lit "cost_usd", costJson child.cost), (lit "stdout_hash", .str run.stdoutHash),
        (lit "stderr_hash", .str run.stderrHash), (lit "duration_ms", .int run.durationMs),
        (lit "credential_material_zeroized", .bool run.zeroized),
        (lit "isolation_root_removed", .bool run.removed),
        (lit "descriptors_closed", .bool true), (lit "promotion_applied", .bool false),
        (lit "gate_enforce_applied", .bool false), (lit "deployment_applied", .bool false),
        (lit "child_outcome", .str child.outcome)] := by
  unfold executedResult initialResult observation update conclude closeRun verdict
  split_ifs <;> simp [setMember]

/-- The names of the members of a result. -/
def resultNames : List PyStr :=
  ["contract_version", "runner_id", "operation_id", "plan_hash", "outcome", "reason",
    "approval_consumed",
    "credential_material_opened", "runtime_started", "inference_applied", "timed_out",
      "return_code", "input_tokens",
    "output_tokens", "cost_usd", "stdout_hash", "stderr_hash", "duration_ms",
      "credential_material_zeroized",
    "isolation_root_removed", "descriptors_closed", "promotion_applied", "gate_enforce_applied",
    "deployment_applied", "child_outcome"].map lit

/-- What the answer holds beside the three numbers of the child: the names and the constants of the
envelope and of the result, then what depends on the run. -/
def ownSize (b : Bootstrap) (run : ChildRun) (child : ChildResult) : ℕ∞ :=
  658 + jsonSize (.str b.runnerId) + jsonSize (.str run.operationId) + jsonSize (.str run.planHash)
    + jsonSize (.str (verdict run child).1) + jsonSize (.str (verdict run child).2)
    + jsonSize (.bool child.inferenceApplied) + jsonSize (.str run.stdoutHash)
      + jsonSize (.str run.stderrHash)
    + jsonSize (.int run.durationMs) + jsonSize (.bool run.zeroized) + jsonSize (.bool run.removed)
    + jsonSize (.str child.outcome)

/-- The size of the answer, with the three values of the child apart. -/
theorem jsonSize_executedResult (b : Bootstrap) (run : ChildRun) {child : ChildResult}
    (h : ∀ d, child.cost = some d → 0 ≤ d.value ∧ d.value ≤ maxCost) :
    159 + jsonSize (.obj (executedResult b run child))
      = ownSize b run child + tokensSize child.inputTokens + tokensSize child.outputTokens
      + costSize child.cost := by
  have hkeys : keys (executedResult b run child) = resultNames := by
    rw [executedResult_eq]
    rfl
  have hnames : namesSize resultNames = (431 : Nat) := namesSize_plain (by decide)
  have hcode : jsonSize (.int 0) = (1 : Nat) := rfl
  have hnil : valuesSize [] = 0 := rfl
  have hlength : (executedResult b run child).length - 1 = 24 := by
    rw [executedResult_eq]
    rfl
  rw [jsonSize_obj, membersSize_split, hkeys, hnames, hlength, executedResult_eq]
  simp only [valuesSize_cons, jsonSize_version, hcode, jsonSize_costJson h, jsonSize_true,
    jsonSize_false, hnil]
  unfold ownSize tokensSize
  push_cast
  ring

/-- A result of the child that was accepted is answered exactly where its numbers leave room: the
counts as they were written, and of the cost one character a place. -/
theorem answer_iff {sign : Bytes → Bytes} (hsign : ∀ m, (sign m).length = 64) {b : Bootstrap}
    (run : ChildRun)
    {raw : Bytes} {child : ChildResult} (h : childResult b raw = .ok child) :
    (∃ encoded, answer sign (executedResult b run child) = .ok encoded
      ∧ encoded.length ≤ maxRequestBytes)
      ↔ ownSize b run child + tokensSize child.inputTokens + tokensSize child.outputTokens
        + costSize child.cost
        ≤ maxRequestBytes := by
  rw [answer_ok_iff hsign, jsonSize_executedResult b run fun d hd => cost_bounds h hd]

/-! ## A shallow and a deep cost -/

/-- A result of a child that did not count its tokens. -/
def childMembers (cost : PyStr) : Members :=
  [(lit "contract_version", .str (lit "0.1")), (lit "cost_usd", .str cost),
    (lit "inference_applied", .bool false),
    (lit "input_tokens", .null), (lit "outcome", .str (lit "completed")),
      (lit "output_tokens", .null)]

/-- The file it is in. -/
def childRaw (cost : PyStr) : Bytes := (canonicalBytes (.obj (childMembers cost))).getD []

/-- What a child writes that writes canonically. -/
theorem canonicalBytes_childMembers {cost : PyStr} (h : cost.all isPlain = true) :
    canonicalBytes (.obj (childMembers cost)) = some (childRaw cost) := by
  have hkeys : keys (childMembers cost)
    = ["contract_version", "cost_usd", "inference_applied", "input_tokens",
      "outcome", "output_tokens"].map lit := rfl
  have hnames :
    namesSize (["contract_version", "cost_usd", "inference_applied", "input_tokens", "outcome",
      "output_tokens"].map lit) = (91 : Nat) := namesSize_plain (by decide)
  have houtcome : jsonSize (.str (lit "completed")) = (11 : Nat) := jsonSize_plain (by decide)
  have hnil : valuesSize [] = 0 := rfl
  have hsize : jsonSize (.obj (childMembers cost)) = (129 + cost.length : Nat) := by
    rw [jsonSize_obj, membersSize_split, hkeys, hnames]
    simp only [childMembers, valuesSize_cons, jsonSize_version, jsonSize_plain h, houtcome,
      jsonSize_false,
      jsonSize_null, hnil, List.length_cons, List.length_nil]
    push_cast
    ring
  obtain ⟨raw, hraw, _⟩ := (jsonSize_le _ _).mp hsize.le
  rw [childRaw, hraw]
  rfl

/-- A canonical text with sorted and different names is read back as it is. -/
theorem strictJson_canonical {m : Members} {raw : Bytes} (label : String)
    (hraw : canonicalBytes (.obj m) = some raw)
    (hcanon : canon (.obj m) = .obj m) (hunique : duplicateName (.obj m) = none)
    (hdepth : depth (.obj m) ≤ recursionLimit) : strictJson raw label = .ok m := by
  obtain ⟨text, htext, hencode⟩ := Option.bind_eq_some_iff.mp hraw
  unfold strictJson
  simp [utf8Decode_utf8Encode hencode, parse_dumps htext hdepth, hcanon, hunique]

/-- The runner accepts it, at every cost within the budget. -/
theorem childResult_childRaw (b : Bootstrap) {cost : PyStr} {d : FiniteDecimal}
    (h : cost.all isPlain = true)
    (hcost : DecimalNumber.ofText cost = some (.finite d))
    (hbudget : 0 ≤ d.value ∧ d.value ≤ maxCost) :
    childResult b (childRaw cost) = .ok ⟨lit "completed", false, none, none, some d⟩ := by
  have hread : strictJson (childRaw cost) "child_result" = .ok (childMembers cost) := by
    apply strictJson_canonical _ (canonicalBytes_childMembers h)
    · rfl
    · simp [childMembers, duplicateName, Autonomy.duplicateNameMembers, Autonomy.repeated, keys]
    · simp [childMembers, depth, depthMembers, recursionLimit]
  have hcontract : (keysEq (childMembers cost) childFields
      && pyEq (get (lit "contract_version") (childMembers cost)) (.str (lit "0.1"))) = true := by
    simp [keysEq, childMembers, childFields, keys, Python.get, lookup, pyEq, scalarEq]
  have hbudget' : readCost (.str cost) = .ok (some d) := by
    simp [readCost, decimalOf, hcost, withinBudget, hbudget]
  unfold childResult
  rw [hread]
  simp only [bind, Except.bind, hcontract, check, if_true]
  simp [childMembers, Python.get, lookup, check, readOutcome, uncaught, memberOfSet, readApplied,
    readTokens,
    hbudget', bind, Except.bind]

/-- A one in the last of its places is within the budget. -/
theorem value_one {k : Nat} (hk : 0 < k) :
    0 ≤ (FiniteDecimal.mk false 1 (-k)).value ∧ (FiniteDecimal.mk false 1 (-k)).value
    ≤ maxCost := by
  have hvalue : (FiniteDecimal.mk false 1 (-k)).value = ((10 : ℚ) ^ k)⁻¹ := by
    simp [FiniteDecimal.value]
  have hfour : (4 : ℚ) ≤ 10 ^ k := by
    calc (4 : ℚ) ≤ 10 ^ 1 := by norm_num
      _ ≤ 10 ^ k := pow_le_pow_right₀ (by norm_num) hk
  rw [hvalue]
  constructor
  · positivity
  · unfold maxCost
    rw [one_div]
    exact inv_anti₀ (by norm_num) hfour

/-- A child that ended well, whose cost is a one in the last of `k` places. -/
def childOf (k : Nat) : ChildResult := ⟨lit "completed", false, none, none, some ⟨false, 1, -k⟩⟩

def plainRun : ChildRun := ⟨rehearsalId (.bool true), givenHash, givenHash, givenHash, 1,
    true, true⟩

/-- A signature of the right length. -/
def plainSign : Bytes → Bytes := fun _ => List.replicate 64 (byte 0)

theorem length_plainSign (m : Bytes) : (plainSign m).length = 64 := List.length_replicate

/-- The equivalence at a cost of `0.1`. -/
theorem shallow_answer_iff :
    (∃ encoded, answer plainSign (executedResult rehearsalBootstrap plainRun (childOf 1))
      = .ok encoded
      ∧ encoded.length ≤ maxRequestBytes)
      ↔ ownSize rehearsalBootstrap plainRun (childOf 1) + tokensSize none + tokensSize none
        + costSize (childOf 1).cost ≤ maxRequestBytes := by
  have hread : childResult rehearsalBootstrap (childRaw (lit "0.1")) = .ok (childOf 1) :=
    childResult_childRaw rehearsalBootstrap (by decide) (by decide) (value_one Nat.one_pos)
  exact answer_iff length_plainSign plainRun hread

/-- A cost of `1E-200000` is accepted, and there is no answer. -/
theorem deep_cost_unanswered :
    childResult rehearsalBootstrap (childRaw (lit "1E-200000")) = .ok (childOf 200000)
      ∧ ¬∃ encoded, answer plainSign (executedResult rehearsalBootstrap plainRun (childOf 200000))
        = .ok encoded
        ∧ encoded.length ≤ maxRequestBytes := by
  have hwithin := value_one (k := 200000) (by norm_num)
  constructor
  · exact childResult_childRaw rehearsalBootstrap (by decide) (by decide) hwithin
  · rw [answer_ok_iff length_plainSign, jsonSize_executedResult]
    · intro hfits
      -- the cost alone is larger than the answer may be
      have hcost : ((costSize (childOf 200000).cost : Nat) : ℕ∞) ≤ maxRequestBytes :=
        le_trans le_add_self hfits
      have hnat : costSize (childOf 200000).cost ≤ maxRequestBytes := by exact_mod_cast hcost
      exact absurd hnat (by decide)
    · intro d hd
      obtain rfl := Option.some.inj hd
      exact hwithin

end SddGov.TrustedRunner
