import SddGov.Broker.Request
import SddGov.Broker.Ledger

/-!
# The client's half of a consumption

The line the agent sends for a nonce, and how the Broker reads a line off the
socket. `receiveRequest` takes chunks until the client half-closes, against one
monotonic deadline; each chunk takes at least one byte of the size limit, which
is the fuel of the loop.
-/

namespace SddGov.Broker

open SddGov.Effect SddGov.Python

/-- The members of the request for one nonce. -/
def requestMembers (nonce receiptSha256 operationPayloadSha256 : PyStr) : List (PyStr × Json) :=
  [(lit "action", .str (lit "consume")), (lit "nonce", .str nonce),
    (lit "receipt_sha256", .str receiptSha256),
    (lit "operation_payload_sha256", .str operationPayloadSha256)]

/-- The request line; `none` is the `UnicodeEncodeError` of a lone surrogate. -/
def requestLine (nonce receiptSha256 operationPayloadSha256 : PyStr) : Option Bytes :=
  (canonicalBytes (.obj (requestMembers nonce receiptSha256 operationPayloadSha256))).map
    (· ++ [newline])

/-! ## Reading a request -/

/-- The calls of `_receive_request`. -/
inductive SocketOp
  | monotonic
  | recv (size : Nat)

/-- The clock in nanoseconds, and a chunk of at most the size asked for; no bytes
is the end of the stream. -/
abbrev socketSig : Sig where
  Op := SocketOp
  Resp
    | .monotonic => Int
    | .recv _ => Sys Bytes

abbrev SocketProg (α : Type) := Prog socketSig Exn α

def askSocket (o : SocketOp) : SocketProg (socketSig.Resp o) := @Prog.perform socketSig Exn o

/-- What is made of the bytes read. -/
def checkRequest (value : Bytes) : Except Exn Bytes :=
  if maxRequestBytes < value.length then
    .error (valueError "broker request exceeds the size limit")
  else if value.count newline ≠ 1 ∨ value.getLast? ≠ some newline then
    .error (valueError "broker request must be exactly one newline-terminated record")
  else .ok value

/-- The reading loop of `_receive_request`. -/
def receiveLoop (deadline : Int) : Nat → Bytes → SocketProg Bytes
  | 0, value => .ofExcept (checkRequest value)
  | fuel + 1, value => do
    let now ← askSocket .monotonic
    if deadline - now ≤ 0 then .raise (valueError "broker request exceeded the read deadline")
    else do
      let chunk ← sys (askSocket (.recv (min 512 (maxRequestBytes + 1 - value.length))))
      if chunk = [] then .ofExcept (checkRequest value)
      else if maxRequestBytes < (value ++ chunk).length then
        .ofExcept (checkRequest (value ++ chunk))
      else receiveLoop deadline fuel (value ++ chunk)

/-- `_receive_request`. -/
def receiveRequest : SocketProg Bytes := do
  let now ← askSocket .monotonic
  receiveLoop (now + requestReadDeadline) (maxRequestBytes + 1) []

end SddGov.Broker
