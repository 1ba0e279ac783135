import SddGov.Broker.Client
import SddGov.Governance.Host

/-!
# The agent's side of the Broker

`_consume_nonce_via_control_plane`: the socket and every directory above it
must belong to root, then one request line is sent, the connection is
half-closed, and the reply has to be exactly `CONSUMED` and a newline.
-/

namespace SddGov.Autonomy

open SddGov.Effect SddGov.Python SddGov.Governance
open SddGov.Broker (requestLine consumed)

/-! ## The socket -/

/-- The number of directories above the socket. -/
def brokerParents : Platform → Nat
  | .linux => 3
  | .darwin => 5

/-- A directory only root can change. -/
def isRootDirectory (m : Lstat) : Bool :=
  !m.isLink && m.isDirectory && m.uid == 0 && m.mode &&& 0o022 == 0

/-- The socket of the Broker: root's, for its group, and for nobody else. -/
def isBrokerSocket (groupId : Nat) (m : Lstat) : Bool :=
  m.uid == 0 && m.gid == groupId && m.mode == 0o660 && m.isSocket

/-- `except OSError: return False`. -/
def falseOnOsError (p : HostProg Bool) : HostProg Bool :=
  p.tryCatch fun
    | .os _ => .ret false
    | e => .raise e

/-- The directories from `depth` on. -/
def checkParents : Nat → Nat → HostProg Bool
  | _, 0 => .ret true
  | depth, count + 1 => do
    let metadata ← sys (ask (.lstatBrokerParent depth))
    if isRootDirectory metadata then checkParents (depth + 1) count else .ret false

/-- The socket itself. -/
def checkSocket : HostProg Bool := do
  let metadata ← sys (ask .lstatBroker)
  let group ← ask .brokerGroup
  match group with
  | none => pure false
  | some groupId => pure (isBrokerSocket groupId metadata)

/-- What is checked before the Broker is spoken to. -/
def brokerReachable : HostProg Bool := do
  let host ← ask .platform
  match host with
  | none => pure false
  | some platform => do
    let parents ← falseOnOsError (checkParents 0 (brokerParents platform))
    if parents then falseOnOsError checkSocket else pure false

/-! ## The exchange -/

/-- The reading loop: `none` where the reply is too long. Every chunk takes a byte of the fuel. -/
def recvLoop : Nat → Bytes → HostProg (Option Bytes)
  | 0, response => .ret (some response)
  | fuel + 1, response =>
    if consumed.length < response.length then .ret (some response)
    else do
      let chunk ← sys (ask (.recv (consumed.length + 1 - response.length)))
      if chunk = [] then pure (some response)
      else if consumed.length < (response ++ chunk).length then pure none
      else recvLoop fuel (response ++ chunk)

/-- Send the request, half-close, read the reply. -/
def talk (request : Bytes) : HostProg Bool := do
  sys (ask .connectBroker)
  sys (ask (.sendAll request))
  sys (ask .shutdownWrite)
  let response ← recvLoop (consumed.length + 2) []
  pure (response == some consumed)

/-- The `with socket.socket(...)` block. -/
def exchange (request : Bytes) : HostProg Bool :=
  falseOnOsError (Prog.tryFinally (talk request) (sys (ask .closeSocket)))

/-- The request line; a lone surrogate cannot be encoded. -/
def encodeRequest (nonce receiptSha256 operationPayloadSha256 : PyStr) : Except Exn Bytes :=
  match requestLine nonce receiptSha256 operationPayloadSha256 with
  | none => .error (valueError "UnicodeEncodeError")
  | some request => .ok request

/-- `_consume_nonce_via_control_plane`. -/
def consumeNonceViaControlPlane (nonce receiptSha256 operationPayloadSha256 : PyStr) :
    HostProg Bool := do
  let reachable ← brokerReachable
  if reachable then do
    let request ← Prog.ofExcept (encodeRequest nonce receiptSha256 operationPayloadSha256)
    exchange request
  else pure false

end SddGov.Autonomy
