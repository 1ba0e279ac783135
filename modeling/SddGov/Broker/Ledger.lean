import SddGov.Broker.Request

/-!
# The nonce ledger and the request handler

`NonceLedger` as programs over the system calls it makes on one ledger file
and its parent directory. Each request opens its own descriptor, so a call
here is a call on the caller's descriptor.

`os.dup`, `os.fdopen` and the two `os.lseek` calls leave no trace in the model:
the scan reads from offset 0 to the end (`readLedger`), and the file is opened
with `O_APPEND`, so a write goes to the end wherever the offset stands.
-/

namespace SddGov.Broker

open SddGov.Effect SddGov.Python

/-- The modes of `flock`. -/
inductive LockMode
  | shared
  | exclusive
  | unlock
  deriving DecidableEq, Repr

/-- The fields of `os.fstat` that are looked at. -/
structure Stat where
  isRegular : Bool
  nlink : Nat
  uid : Nat
  /-- permission bits -/
  mode : Nat
  size : Nat
  deriving DecidableEq

/-- The calls of the ledger and of the socket that carries a request. -/
inductive LedgerOp
  | rootOwnedDirectoryErrors
  | createLedger
  | openLedger
  | fstat
  | openParent
  | fsyncParent
  | closeParent
  | flock (mode : LockMode)
  | readLedger
  | now
  | write (chunk : Bytes)
  | fsync
  | close
  | log (message : PyStr)
  deriving DecidableEq

/-- What the calls answer. -/
abbrev ledgerSig : Sig where
  Op := LedgerOp
  Resp
    | .rootOwnedDirectoryErrors => List PyStr
    | .fstat => Sys Stat
    | .readLedger => Sys Bytes
    | .now => Instant
    | .write _ => Sys Nat
    | _ => Sys Unit

/-- A program of the ledger. -/
abbrev LedgerProg (α : Type) := Prog ledgerSig Exn α

/-- One call. -/
def ask (o : LedgerOp) : LedgerProg (ledgerSig.Resp o) := @Prog.perform ledgerSig Exn o

open LedgerOp

/-- `"; ".join(errors)`. -/
def joinErrors : List PyStr → PyStr
  | [] => []
  | [e] => e
  | e :: rest => e ++ lit "; " ++ joinErrors rest

/-- `_write_all`: each turn writes at least one byte of the fuel. -/
def writeAllLoop : Nat → Bytes → LedgerProg Unit
  | 0, _ => .ret ()
  | fuel + 1, value =>
    if value = [] then .ret ()
    else do
      let written ← sys (ask (write value))
      if written = 0 then .raise (.os .other)
      else writeAllLoop fuel (value.drop written)

def writeAll (value : Bytes) : LedgerProg Unit := writeAllLoop value.length value

/-- `_warn_ledger_capacity`. -/
def warnLedgerCapacity (size : Nat) : LedgerProg Unit :=
  if maxLedgerBytes * ledgerCapacityWarningPercent ≤ size * 100 then
    sys (ask (log (lit "L3 Broker ledger capacity warning: " ++ natText size ++ lit "/"
      ++ natText maxLedgerBytes ++ lit " bytes used; schedule controlled epoch rollover")))
  else .ret ()

/-- A `NonceLedger`. -/
structure NonceLedger where
  expectedUid : Nat
  validateParentChain : Bool

namespace NonceLedger

variable (L : NonceLedger)

/-- A single-linked, owner-only regular file. -/
def metadataOk (st : Stat) : Bool :=
  st.isRegular && st.nlink == 1 && st.uid == L.expectedUid && st.mode &&& 0o077 == 0

/-- The parent directory is synced by the call that created the file. -/
def syncParent : LedgerProg Unit :=
  Prog.tryCatch
    (do
      sys (ask openParent)
      Prog.tryFinally (sys (ask fsyncParent)) (sys (ask closeParent)))
    fun e => do
      sys (ask close)
      .raise e

/-- The existing file: this call did not create it. -/
def openExisting : LedgerProg Bool := do
  sys (ask openLedger)
  pure false

/-- `os.open(path, flags | O_CREAT | O_EXCL)`, falling back to the existing file:
whether this call created the file. -/
def openOrCreate : LedgerProg Bool :=
  (sys (ask createLedger)).handle (fun _ => .ret true) fun e =>
    if e = .os .exists then openExisting else .raise e

/-- The errors of the parent chain, when it is looked at. -/
def parentErrors : LedgerProg (List PyStr) :=
  if L.validateParentChain then ask rootOwnedDirectoryErrors else pure []

/-- `_open`. -/
def openDescriptor (create : Bool) : LedgerProg Unit := do
  let errors ← L.parentErrors
  if errors ≠ [] then .raise (.value (joinErrors errors))
  else do
    let created ← (if create then openOrCreate else openExisting : LedgerProg Bool)
    let metadata ← sys (ask fstat)
    if !L.metadataOk metadata then do
      sys (ask close)
      .raise (valueError "broker ledger must be a single-linked, owner-only regular file")
    else if created then syncParent
    else pure ()

end NonceLedger

/-- `_scan_locked`. -/
def scanLocked [Nesting] : LedgerProg (List PyStr) := do
  let st ← sys (ask fstat)
  if maxLedgerBytes ≤ st.size then .raise capacityExceeded
  else do
    let ledger ← sys (ask readLedger)
    Prog.ofExcept (scanLines ledger.length ledger [])

/-- `fcntl.flock(descriptor, fcntl.LOCK_UN); os.close(descriptor)`. -/
def release : LedgerProg Unit := do
  sys (ask (flock .unlock))
  sys (ask close)

def wouldExceedCapacity : Exn :=
  valueError "broker ledger would exceed the active-epoch capacity limit; complete the controlled epoch rollover runbook"

/-- The end of `consume`: append the record and sync it. -/
def appendRecord (record : Bytes) : LedgerProg Bool := do
  writeAll record
  sys (ask fsync)
  pure true

/-- `consume` once its record is made: the capacity, the scan, the append. -/
def commitRecord [Nesting] (nonce : PyStr) (record : Bytes) : LedgerProg Bool := do
  let st ← sys (ask fstat)
  if maxLedgerBytes ≤ st.size + record.length then .raise wouldExceedCapacity
  else do
    let seenNonces ← scanLocked
    if nonce ∈ seenNonces then pure false else appendRecord record

/-- The body of `consume` between opening and releasing. -/
def consumeBody [Nesting] (nonce receiptSha256 operationPayloadSha256 : PyStr) :
    LedgerProg Bool := do
  sys (ask (flock .exclusive))
  let consumedAt ← ask now
  let record ← Prog.ofExcept (encodeRecord nonce receiptSha256 operationPayloadSha256 consumedAt)
  commitRecord nonce record

namespace NonceLedger

variable (L : NonceLedger)

def initializeLedger [Nesting] : LedgerProg Unit := do
  L.openDescriptor true
  Prog.tryFinally
    (do
      sys (ask (flock .shared))
      let _ ← scanLocked
      let st ← sys (ask fstat)
      warnLedgerCapacity st.size)
    release

def validate [Nesting] : LedgerProg Unit := do
  L.openDescriptor false
  Prog.tryFinally
    (do
      sys (ask (flock .shared))
      let _ ← scanLocked
      pure ())
    release

def consume [Nesting] (nonce receiptSha256 operationPayloadSha256 : PyStr) : LedgerProg Bool := do
  L.openDescriptor false
  Prog.tryFinally (consumeBody nonce receiptSha256 operationPayloadSha256) release

end NonceLedger

/-! ## Requests -/

def ready : Bytes := (lit "READY\n").map fun c => byte c.val

def rejected : Bytes := (lit "REJECTED\n").map fun c => byte c.val

def consumed : Bytes := (lit "CONSUMED\n").map fun c => byte c.val

def alreadyConsumed : Bytes := (lit "ALREADY_CONSUMED\n").map fun c => byte c.val

/-- What a parsed request is answered. -/
def answer [Nesting] (L : NonceLedger) : Option Request → LedgerProg Bytes
  | none => pure rejected
  | some .health => do
    L.validate
    pure ready
  | some (.consume nonce receiptSha256 operationPayloadSha256) => do
    let isConsumed ← L.consume nonce receiptSha256 operationPayloadSha256
    pure (if isConsumed then consumed else alreadyConsumed)

/-- `handle_request`. -/
def handleRequest [Nesting] (L : NonceLedger) (raw : Bytes) : LedgerProg Bytes := do
  let request ← Prog.ofExcept (parseRequest raw)
  answer L (request? request)

/-- The answering part of `_handle_connection`, after `_receive_request`: a request that is not
received or fails is answered `REJECTED`. -/
def respond [Nesting] (L : NonceLedger) (received : Except Exn Bytes) : LedgerProg Bytes :=
  Prog.tryCatch
    (do
      let raw ← Prog.ofExcept received
      handleRequest L raw) fun e =>
    if e.isOsOrValue then do
      sys (ask (log (lit "L3 Broker rejected request")))
      pure rejected
    else .raise e

end SddGov.Broker
