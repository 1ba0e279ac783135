import SddGov.Python.Crypto
import SddGov.Python.Time

/-!
# Broker records and requests

The shapes the Broker accepts, as pure functions: the three fields that name a
consumption (`validNonceFields`), a ledger line (`validLedgerRecord`), a
request line (`parseRequest`). Sets of names compare as sets, so the order of
members and a repeated name in the text do not matter; `loads` has already
kept the last value of a repeated name.
-/

namespace SddGov.Broker

open SddGov.Effect SddGov.Python

def maxRequestBytes : Nat := 2048

def maxLedgerRecordBytes : Nat := 2048

def maxLedgerBytes : Nat := 64 * 1024 * 1024

def ledgerCapacityWarningPercent : Nat := 80

/-- `REQUEST_READ_DEADLINE_SECONDS`, in nanoseconds of the monotonic clock. -/
def requestReadDeadline : Int := 2000000000

/-- `\n`. -/
def newline : Byte := byte 0x0A

/-- How many containers `json.loads` nests in a request and in a record before it meets the
recursion limit of the interpreter, the frames of the daemon subtracted. A flat object always
fits. -/
class Nesting where
  request : Nat
  record : Nat
  request_pos : 1 ≤ request
  record_pos : 1 ≤ record

/-- The default limit with nothing subtracted, for examples. -/
instance (priority := low) : Nesting := ⟨recursionLimit, recursionLimit, by decide, by decide⟩

/-! ## Fields -/

/-- The characters of a nonce. -/
def isPrintable (c : CodePoint) : Bool := 0x21 ≤ c.val && c.val ≤ 0x7E

/-- The nonce part of `_valid_nonce_fields`. -/
def validNonce (s : PyStr) : Bool := 12 ≤ s.length && s.length ≤ 256 && s.all isPrintable

/-- A string that satisfies `p`. -/
def strWith (p : PyStr → Bool) : Json → Bool
  | .str s => p s
  | _ => false

/-- `_valid_nonce_fields` on the members of an object. -/
def validNonceFields (m : List (PyStr × Json)) : Bool :=
  strWith validNonce (get (lit "nonce") m)
    && strWith isSha256 (get (lit "receipt_sha256") m)
    && strWith isSha256 (get (lit "operation_payload_sha256") m)

/-- `text.endswith("Z")` and the offset in its place. -/
def zuluText? (s : PyStr) : Option PyStr :=
  if s.getLast? = some (cp 0x5A) then some (s.dropLast ++ lit "+00:00") else none

/-- The `consumed_at` part of `_valid_ledger_record`: an aware UTC timestamp. -/
def validConsumedAt (s : PyStr) : Bool :=
  match zuluText? s with
  | none => false
  | some t =>
    match fromisoformat t with
    | none => false
    | some p => p.offset == some 0

def ledgerRecordFields : List PyStr :=
  [lit "nonce", lit "receipt_sha256", lit "operation_payload_sha256", lit "consumed_at"]

/-- `_valid_ledger_record`: the nonce of a valid record. -/
def validLedgerRecord : Json → Option PyStr
  | .obj m =>
    if keysEq m ledgerRecordFields && validNonceFields m
        && strWith validConsumedAt (get (lit "consumed_at") m) then
      match get (lit "nonce") m with
      | .str nonce => some nonce
      | _ => none
    else none
  | _ => none

/-! ## Ledger lines -/

def invalidRecord : Exn := valueError "broker ledger contains an invalid record"

/-- `json.loads(line[:-1].decode("utf-8"))` with the errors the scanner maps. -/
def loadsRecord [Nesting] (line : Bytes) : Except Exn Json :=
  match utf8Decode line.dropLast with
  | none => .error invalidRecord
  | some text =>
    match loads Nesting.record text with
    | .ok v => .ok v
    | .error .decode => .error invalidRecord
    | .error e => .error (.ofJson e)

/-- `handle.readline(limit)`: the line and what follows it. -/
def readline : Nat → Bytes → Bytes × Bytes
  | 0, s => ([], s)
  | _ + 1, [] => ([], [])
  | limit + 1, b :: s =>
    if b = newline then ([b], s) else (b :: (readline limit s).1, (readline limit s).2)

/-- One line of the ledger: the nonce it records, if that is a new one. -/
def scanLine [Nesting] (line : Bytes) (seenNonces : List PyStr) : Except Exn PyStr :=
  if maxLedgerRecordBytes < line.length ∨ line.getLast? ≠ some newline then .error invalidRecord
  else
    match loadsRecord line with
    | .error e => .error e
    | .ok row =>
      match validLedgerRecord row with
      | none => .error invalidRecord
      | some nonce => if nonce ∈ seenNonces then .error invalidRecord else .ok nonce

/-- The reading loop of `_scan_locked`; every line takes at least one byte of the fuel. -/
def scanLines [Nesting] : Nat → Bytes → List PyStr → Except Exn (List PyStr)
  | 0, _, seenNonces => .ok seenNonces
  | fuel + 1, s, seenNonces =>
    match readline (maxLedgerRecordBytes + 1) s with
    | ([], _) => .ok seenNonces
    | (line, rest) =>
      match scanLine line seenNonces with
      | .error e => .error e
      | .ok nonce => scanLines fuel rest (nonce :: seenNonces)

def capacityExceeded : Exn :=
  valueError "broker ledger exceeds the active-epoch capacity limit; complete the controlled epoch rollover runbook"

/-- `_scan_locked` on the bytes of the ledger. -/
def scan [Nesting] (ledger : Bytes) : Except Exn (List PyStr) :=
  if maxLedgerBytes ≤ ledger.length then .error capacityExceeded
  else scanLines ledger.length ledger []

/-! ## The record of a consumption -/

/-- The members of the record `consume` appends. -/
def recordMembers (nonce receiptSha256 operationPayloadSha256 : PyStr) (now : Instant) :
    List (PyStr × Json) :=
  [(lit "nonce", .str nonce), (lit "receipt_sha256", .str receiptSha256),
    (lit "operation_payload_sha256", .str operationPayloadSha256),
    (lit "consumed_at", .str (stamp now))]

/-- The bytes of the record; a lone surrogate cannot be encoded. -/
@[irreducible] def encodeRecord (nonce receiptSha256 operationPayloadSha256 : PyStr)
    (now : Instant) :
    Except Exn Bytes :=
  match canonicalBytes (.obj (recordMembers nonce receiptSha256 operationPayloadSha256 now)) with
  | some b => .ok (b ++ [newline])
  | none => .error (valueError "UnicodeEncodeError")

/-! ## Requests -/

/-- `_parse_request`. -/
def parseRequest [Nesting] (raw : Bytes) : Except Exn (List (PyStr × Json)) :=
  if raw.getLast? ≠ some newline ∨ raw.count newline ≠ 1 then
    .error (valueError "broker request must be exactly one newline-terminated record")
  else
    match utf8Decode raw.dropLast with
    | none => .error (valueError "broker request must be valid UTF-8 JSON")
    | some text =>
      match loads Nesting.request text with
      | .error .decode => .error (valueError "broker request must be valid UTF-8 JSON")
      | .error e => .error (.ofJson e)
      | .ok (.obj m) => .ok m
      | .ok _ => .error (valueError "broker request must be a JSON object")

def requestFields : List PyStr :=
  [lit "action", lit "nonce", lit "receipt_sha256", lit "operation_payload_sha256"]

/-- A request the Broker acts on. -/
inductive Request
  | health
  | consume (nonce receiptSha256 operationPayloadSha256 : PyStr)

/-- The dispatch of `handle_request`; `none` is answered `REJECTED`. -/
def request? (m : List (PyStr × Json)) : Option Request :=
  if pyEq (.obj m) (.obj [(lit "action", .str (lit "health"))]) then some .health
  else if !keysEq m requestFields || !pyEq (get (lit "action") m) (.str (lit "consume")) then none
  else if !validNonceFields m then none
  else
    match get (lit "nonce") m, get (lit "receipt_sha256") m,
        get (lit "operation_payload_sha256") m with
    | .str nonce, .str receiptSha256, .str operationPayloadSha256 =>
      some (.consume nonce receiptSha256 operationPayloadSha256)
    | _, _, _ => none

end SddGov.Broker
