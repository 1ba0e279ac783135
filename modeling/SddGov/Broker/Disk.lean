import SddGov.Broker.Ledger
import SddGov.Effect.Machine
import Mathlib.Data.Fintype.Basic

/-!
# The disk under the ledger

One ledger file behind one name, with the advisory locks of the descriptors
that are open on it. A call can fail at any time; a successful `write` may
stop after any number of bytes, so an append can be cut to any prefix by a
short write and the failure or kill that follows it. A read sees the file only
under a lock: what an unlocked reader gets is left open.

`entryDurable` and `durable` are what a power loss keeps: the name once its
parent directory has been synced, the bytes up to the last sync of the file.
-/

namespace SddGov.Broker

open SddGov.Effect SddGov.Python

variable {ι : Type}

/-- The lock a descriptor holds. -/
inductive Held
  | none
  | shared
  | exclusive
  deriving DecidableEq, Repr

/-- The ledger file, its name and its locks. -/
structure Disk (ι : Type) where
  /-- the bytes behind the name, if the name exists -/
  ledger : Option Bytes
  entryDurable : Bool
  durable : Bytes
  locks : ι → Held

/-- The bytes of the ledger; a missing file has none. -/
def Disk.bytes (w : Disk ι) : Bytes := w.ledger.getD []

/-- What a successful `flock` leaves held. -/
def LockMode.held : LockMode → Held
  | .shared => .shared
  | .exclusive => .exclusive
  | .unlock => .none

/-- The answers descriptor `i` can get. -/
def Disk.allows (i : ι) (w : Disk ι) : (o : LedgerOp) → ledgerSig.Resp o → Prop
  | .createLedger, .ok _ => w.ledger = none
  | .createLedger, .error .exists => w.ledger ≠ none
  | .openLedger, .ok _ => w.ledger ≠ none
  | .fstat, .ok st => st.size = w.bytes.length
  | .flock .shared, .ok _ => ∀ j, j ≠ i → w.locks j ≠ .exclusive
  | .flock .exclusive, .ok _ => ∀ j, j ≠ i → w.locks j = .none
  | .readLedger, .ok ledger => w.locks i ≠ .none → ledger = w.bytes
  | .write chunk, .ok written => w.ledger ≠ none ∧ written ≤ chunk.length
  | _, _ => True

instance [DecidableEq ι] [Fintype ι] (i : ι) (w : Disk ι) (o : LedgerOp)
    (r : ledgerSig.Resp o) : Decidable (w.allows i o r) := by
  unfold Disk.allows
  split <;> infer_instance

/-- The answer of a call that does not fail. -/
def Disk.good (uid : Nat) (time : Instant) (w : Disk ι) : (o : LedgerOp) → ledgerSig.Resp o
  | .rootOwnedDirectoryErrors => []
  | .createLedger => if w.ledger = none then .ok () else .error .exists
  | .openLedger => if w.ledger = none then .error .missing else .ok ()
  | .fstat => .ok ⟨true, 1, uid, 0o600, w.bytes.length⟩
  | .readLedger => .ok w.bytes
  | .now => time
  | .write chunk => .ok chunk.length
  | .openParent => .ok ()
  | .fsyncParent => .ok ()
  | .closeParent => .ok ()
  | .flock _ => .ok ()
  | .fsync => .ok ()
  | .close => .ok ()
  | .log _ => .ok ()

variable [DecidableEq ι]

/-- Set the lock of one descriptor. -/
def Disk.setLock (w : Disk ι) (i : ι) (h : Held) : Disk ι :=
  { w with locks := Function.update w.locks i h }

/-- The disk after an answer; a failed call changes nothing, but `close` gives up
the descriptor and its lock either way. -/
def Disk.next (i : ι) (w : Disk ι) : (o : LedgerOp) → ledgerSig.Resp o → Disk ι
  | .createLedger, .ok _ => { w with ledger := some [], entryDurable := false, durable := [] }
  | .fsyncParent, .ok _ => { w with entryDurable := true }
  | .flock mode, .ok _ => w.setLock i mode.held
  | .write chunk, .ok written => { w with ledger := some (w.bytes ++ chunk.take written) }
  | .fsync, .ok _ => { w with durable := w.bytes }
  | .close, _ => w.setLock i .none
  | _, _ => w

/-- Descriptors on one disk; the end of a process gives up its lock. -/
def ledgerSem (ι : Type) [DecidableEq ι] : Sem ι (Disk ι) ledgerSig where
  allows := Disk.allows
  next := Disk.next
  exit i w := w.setLock i .none
  env _ _ := False

@[simp] theorem Disk.setLock_bytes (w : Disk ι) (i : ι) (h : Held) :
    (w.setLock i h).bytes = w.bytes := rfl

@[simp] theorem Disk.setLock_locks_self (w : Disk ι) (i : ι) (h : Held) :
    (w.setLock i h).locks i = h := Function.update_self ..

theorem Disk.setLock_locks_ne (w : Disk ι) {i j : ι} (hji : j ≠ i) (h : Held) :
    (w.setLock i h).locks j = w.locks j := Function.update_of_ne hji ..

/-- A call that neither writes nor syncs the ledger. -/
def LedgerOp.isTame : LedgerOp → Bool
  | .write _ => false
  | .fsync => false
  | _ => true

/-- What a tame call can do: nothing to the bytes, and only to the caller's lock. -/
theorem Disk.next_tame {i : ι} {w : Disk ι} {o : LedgerOp} {r : ledgerSig.Resp o}
    (ho : o.isTame = true) (ha : w.allows i o r) :
    (w.next i o r).bytes = w.bytes ∧ (∀ j, j ≠ i → (w.next i o r).locks j = w.locks j)
      ∧ ((w.next i o r).locks i = w.locks i ∨ (w.next i o r).locks i = .none
        ∨ ((w.next i o r).locks i = .shared ∧ ∀ j, j ≠ i → w.locks j ≠ .exclusive)
        ∨ ((w.next i o r).locks i = .exclusive ∧ ∀ j, j ≠ i → w.locks j = .none)) := by
  have hset : ∀ h : Held, (w.setLock i h).bytes = w.bytes
      ∧ ∀ j, j ≠ i → (w.setLock i h).locks j = w.locks j :=
    fun h => ⟨rfl, fun j hj => w.setLock_locks_ne hj h⟩
  have hsame : w.bytes = w.bytes ∧ (∀ j, j ≠ i → w.locks j = w.locks j)
      ∧ (w.locks i = w.locks i ∨ w.locks i = .none
        ∨ (w.locks i = .shared ∧ ∀ j, j ≠ i → w.locks j ≠ .exclusive)
        ∨ (w.locks i = .exclusive ∧ ∀ j, j ≠ i → w.locks j = .none)) :=
    ⟨rfl, fun _ _ => rfl, Or.inl rfl⟩
  cases o with
  | write chunk => exact absurd ho (by simp [LedgerOp.isTame])
  | fsync => exact absurd ho (by simp [LedgerOp.isTame])
  | createLedger =>
    cases r with
    | error e => exact hsame
    | ok u =>
      have hn : w.ledger = none := ha
      exact ⟨by simp [Disk.next, Disk.bytes, hn], fun _ _ => rfl, Or.inl rfl⟩
  | fsyncParent =>
    cases r with
    | error e => exact hsame
    | ok u => exact ⟨rfl, fun _ _ => rfl, Or.inl rfl⟩
  | close =>
    refine ⟨(hset .none).1, (hset .none).2, Or.inr (Or.inl ?_)⟩
    exact w.setLock_locks_self i .none
  | flock mode =>
    cases r with
    | error e => exact hsame
    | ok u =>
      refine ⟨(hset mode.held).1, (hset mode.held).2, ?_⟩
      have hl : (w.next i (.flock mode) (.ok u)).locks i = mode.held :=
        w.setLock_locks_self i mode.held
      rw [hl]
      cases mode with
      | shared => exact Or.inr (Or.inr (Or.inl ⟨rfl, ha⟩))
      | exclusive => exact Or.inr (Or.inr (Or.inr ⟨rfl, ha⟩))
      | unlock => exact Or.inr (Or.inl rfl)
  | rootOwnedDirectoryErrors => exact hsame
  | openLedger => exact hsame
  | fstat => exact hsame
  | openParent => exact hsame
  | closeParent => exact hsame
  | readLedger => exact hsame
  | now => exact hsame
  | log message => exact hsame

/-- A tame call leaves alone what a power loss keeps of the bytes. -/
theorem Disk.durable_tame {i : ι} {w : Disk ι} {o : LedgerOp} {r : ledgerSig.Resp o}
    (ho : o.isTame = true) (ha : w.allows i o r) (hd : w.durable <+: w.bytes) :
    (w.next i o r).durable = w.durable := by
  cases o with
  | write chunk => exact absurd ho (by simp [LedgerOp.isTame])
  | fsync => exact absurd ho (by simp [LedgerOp.isTame])
  | createLedger =>
    cases r with
    | error e => rfl
    | ok u =>
      have hn : w.ledger = none := ha
      have hb : w.bytes = [] := by simp [Disk.bytes, hn]
      rw [hb, List.prefix_nil] at hd
      rw [hd]
      rfl
  | flock mode => cases r <;> rfl
  | fsyncParent => cases r <;> rfl
  | _ => rfl

end SddGov.Broker
