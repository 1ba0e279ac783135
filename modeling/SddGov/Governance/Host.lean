import SddGov.Python.Exn
import SddGov.Python.Time

/-!
# Calls on the governance state

The calls the governance programs make on the machine they run on: the clock,
the JSON files under `.sddgov`, the root-owned control-plane documents, the
comparison of a recorded L2 decision with the repository, and the socket of the
Broker. `readJson` is `_read`: the existence test, the read and `json.loads` in
one call, for the file is only ever replaced as a whole.

A value is written into a temporary file and then moved over the old one
(`writeJson`); an encoding error shows before the move.
-/

namespace SddGov.Governance

open SddGov.Effect SddGov.Python

/-! ## Calls -/

/-- The files of the governance state; all but `events` are read and written whole. -/
inductive StateFile
  | project
  | events
  | workClaims
  | externalActions
  | decisions
  /-- a path the caller gives -/
  | given (path : PyStr)
  deriving DecidableEq

/-- The locks taken with `flock`. -/
inductive StateLock
  | externalActions
  | decisions
  deriving DecidableEq

/-- The documents `load_control_plane_json` reads. -/
inductive ControlDocument
  | trustedApprovers
  | approverDomains
  | runtimeContext
  deriving DecidableEq

/-- Where a `FileSetSnapshot` is taken. -/
inductive SnapshotRoot
  | repository
  /-- the directory of a path the caller gives -/
  | parentOf (path : PyStr)
  deriving DecidableEq

/-- The hosts an agent can reach the Broker on. -/
inductive Platform
  | linux
  | darwin
  deriving DecidableEq

/-- The parts of `os.lstat` that are looked at. -/
structure Lstat where
  isLink : Bool
  isDirectory : Bool
  isSocket : Bool
  uid : Nat
  gid : Nat
  /-- `stat.S_IMODE` -/
  mode : Nat
  deriving DecidableEq

inductive HostOp
  | now
  | readJson (file : StateFile)
  | makeParent (file : StateFile)
  | makeTemporary (file : StateFile)
  | writeTemporary (file : StateFile) (value : Json)
  | syncTemporary (file : StateFile)
  | replace (file : StateFile) (value : Json)
  | unlinkTemporary (file : StateFile)
  | appendEvent (event : Json)
  | openLock (lock : StateLock)
  | flock (lock : StateLock)
  | unflock (lock : StateLock)
  | closeLock (lock : StateLock)
  | loadControlPlane (document : ControlDocument)
  /-- `_plain_l2_approval_matches` -/
  | plainDecisionMatches (decision : Json) (scope decisionPackage : Json)
  /-- `_l2_approval_matches` -/
  | decisionMatches (decision : Json) (scope : Json)
  /-- `FileSetSnapshot(root, label).__enter__` -/
  | openSnapshot (root : SnapshotRoot)
  | readSnapshot (path : PyStr)
  /-- the end of a snapshot: every file that was read is compared once more -/
  | reconcileSnapshot
  /-- the end of a snapshot after an exception -/
  | dropSnapshot
  /-- `canonicalize_platform_path(path).name` -/
  | canonicalName (path : PyStr)
  /-- the root a trust domain names is absolute, canonical and the repository's -/
  | isBoundRoot (path : PyStr)
  /-- `_repository_identity` -/
  | repositoryIdentity
  /-- the host, where it is a supported one and the caller is not root -/
  | platform
  /-- a parent directory of the Broker's socket, the outermost first -/
  | lstatBrokerParent (depth : Nat)
  | lstatBroker
  | brokerGroup
  | connectBroker
  | sendAll (request : Bytes)
  | shutdownWrite
  | recv (size : Nat)
  | closeSocket

/-- What the calls answer. `brokerGroup` is `none` where the group is unknown. -/
abbrev hostSig : Sig where
  Op := HostOp
  Resp
    | .now => Instant
    | .readJson _ => Except Exn (Option Json)
    | .loadControlPlane _ => Except Exn (List (PyStr × Json))
    | .plainDecisionMatches _ _ _ => Except Exn Bool
    | .decisionMatches _ _ => Except Exn Bool
    | .openSnapshot _ => Except Exn Unit
    | .readSnapshot _ => Except Exn Bytes
    | .reconcileSnapshot => Except Exn Unit
    | .canonicalName _ => Except Exn PyStr
    | .isBoundRoot _ => Except Exn Bool
    | .repositoryIdentity => Except Exn PyStr
    | .platform => Option Platform
    | .lstatBrokerParent _ => Sys Lstat
    | .lstatBroker => Sys Lstat
    | .brokerGroup => Option Nat
    | .recv _ => Sys Bytes
    | _ => Sys Unit

abbrev HostProg (α : Type) := Prog hostSig Exn α

/-- One call. -/
def ask (o : HostOp) : HostProg (hostSig.Resp o) := @Prog.perform hostSig Exn o

/-- Raise the exception of an answer. -/
def raising {α : Type} (p : HostProg (Except Exn α)) : HostProg α :=
  p.handle Prog.ofExcept .raise

/-- A host on which no call fails: its clock, its files and control-plane documents,
and what the Broker replies. -/
structure CalmHost where
  now : Instant
  files : StateFile → Except Exn (Option Json)
  documents : ControlDocument → Members
  reply : Bytes

/-- What a calm host answers. -/
def CalmHost.answer (host : CalmHost) : (o : HostOp) → hostSig.Resp o
  | .now => host.now
  | .readJson file => host.files file
  | .makeParent _ => .ok ()
  | .makeTemporary _ => .ok ()
  | .writeTemporary _ _ => .ok ()
  | .syncTemporary _ => .ok ()
  | .replace _ _ => .ok ()
  -- the temporary file has been moved away
  | .unlinkTemporary _ => .error .missing
  | .appendEvent _ => .ok ()
  | .openLock _ => .ok ()
  | .flock _ => .ok ()
  | .unflock _ => .ok ()
  | .closeLock _ => .ok ()
  | .loadControlPlane document => .ok (host.documents document)
  | .plainDecisionMatches _ _ _ => .ok false
  | .decisionMatches _ _ => .ok false
  | .openSnapshot _ => .ok ()
  | .readSnapshot _ => .error (.os .missing)
  | .reconcileSnapshot => .ok ()
  | .dropSnapshot => .ok ()
  | .canonicalName path => .ok path
  | .isBoundRoot _ => .ok true
  | .repositoryIdentity => .ok (lit "github.com/example/app")
  | .platform => some .linux
  | .lstatBrokerParent _ => .ok ⟨false, true, false, 0, 0, 0o755⟩
  | .lstatBroker => .ok ⟨false, false, true, 0, 990, 0o660⟩
  | .brokerGroup => some 990
  | .connectBroker => .ok ()
  | .sendAll _ => .ok ()
  | .shutdownWrite => .ok ()
  -- a reader of the reply asks for what is left of ten bytes
  | .recv size => .ok ((host.reply.drop (10 - size)).take size)
  | .closeSocket => .ok ()

/-! ## Files -/

mutual
/-- No string of the value holds a lone surrogate. -/
def encodable : Json → Bool
  | .str s => (utf8Encode s).isSome
  | .arr xs => encodableList xs
  | .obj m => encodableMembers m
  | _ => true

def encodableList : List Json → Bool
  | [] => true
  | x :: xs => encodable x && encodableList xs

def encodableMembers : List (PyStr × Json) → Bool
  | [] => true
  | (k, v) :: rest => (utf8Encode k).isSome && encodable v && encodableMembers rest
end

/-- `_read(path, default)`. -/
def readJson (file : StateFile) (default : Json) : HostProg Json := do
  let data ← raising (ask (.readJson file))
  pure (data.getD default)

/-- The text of a value goes to the temporary file as UTF-8. -/
def writeTemporary (file : StateFile) (value : Json) : HostProg Unit :=
  if encodable value then sys (ask (.writeTemporary file value))
  else .raise (valueError "UnicodeEncodeError")

theorem calls_writeTemporary {P : HostOp → Prop} {file : StateFile} {v : Json}
    (h : P (.writeTemporary file v)) :
    (writeTemporary file v).Calls P :=
  .ite (calls_sys (.perform h)) trivial

/-- `os.unlink(temporary)`; after the move there is nothing left to unlink. -/
def unlinkTemporary (file : StateFile) : HostProg Unit :=
  Prog.tryCatch (sys (ask (.unlinkTemporary file))) fun e =>
    if e = .os .missing then .ret () else .raise e

/-- `governance._write`. -/
def writeJson (file : StateFile) (value : Json) : HostProg Unit := do
  sys (ask (.makeParent file))
  sys (ask (.makeTemporary file))
  Prog.tryFinally
    (do
      writeTemporary file value
      sys (ask (.syncTemporary file))
      sys (ask (.replace file value)))
    (unlinkTemporary file)

/-- The parent directory and the lock file of a lock. -/
def StateLock.file : StateLock → StateFile
  | .externalActions => .externalActions
  | .decisions => .decisions

/-- The body runs under an exclusive `flock` on the lock file. -/
def withLock {α : Type} (lock : StateLock) (body : HostProg α) : HostProg α := do
  sys (ask (.makeParent lock.file))
  sys (ask (.openLock lock))
  Prog.tryFinally
    (do
      sys (ask (.flock lock))
      Prog.tryFinally body (sys (ask (.unflock lock))))
    (sys (ask (.closeLock lock)))

/-! ## Events -/

/-- The line of an event. -/
def eventRecord (eventType risk : PyStr) (at' : Instant) (payload : Json) : Json :=
  .obj [(lit "schema_version", .str (lit "1.0")), (lit "event_type", .str eventType),
    (lit "risk_level", .str risk), (lit "at", .str (stamp at')), (lit "payload", payload)]

def emitEvent (eventType risk : PyStr) (payload : Json) : HostProg Unit :=
  if ¬(["L0", "L1", "L2", "L3"].map lit).contains risk then
    .raise (valueError "risk must be L0, L1, L2, or L3")
  else do
    sys (ask (.makeParent .events))
    let at' ← ask .now
    if encodable (eventRecord eventType risk at' payload) then
      sys (ask (.appendEvent (eventRecord eventType risk at' payload)))
    else .raise (valueError "UnicodeEncodeError")

theorem calls_emitEvent {P : HostOp → Prop} (hparent : P (.makeParent .events)) (hnow : P .now)
    (happend : ∀ e, P (.appendEvent e)) {eventType risk : PyStr} {payload : Json} :
    (emitEvent eventType risk payload).Calls P := by
  unfold emitEvent
  refine .ite trivial ((calls_sys (.perform hparent)).bind fun _ => ?_)
  exact (Prog.Calls.perform hnow).bind fun at' =>
    .ite (calls_sys (.perform (happend _))) trivial

/-! ## Values -/

/-- `value[key]`. -/
def item (value : Json) (key : String) : Except Exn Json :=
  match value with
  | .obj m =>
    match lookup (lit key) m with
    | some v => .ok v
    | none => .error .key
  | _ => .error .type

/-- The elements `for x in value` goes through. -/
def elements : Json → Except Exn (List Json)
  | .arr xs => .ok xs
  | .str s => .ok (s.map fun c => .str [c])
  | .obj m => .ok ((keys m).map .str)
  | _ => .error .type

/-- `text.replace("Z", "+00:00")`. -/
def replaceZulu (s : PyStr) : PyStr :=
  s.flatMap fun c => if c = cp 0x5A then lit "+00:00" else [c]

theorem replaceZulu_append (s t : PyStr) : replaceZulu (s ++ t) = replaceZulu s ++ replaceZulu t :=
  List.flatMap_append

theorem replaceZulu_eq_self {s : PyStr} (h : ∀ c ∈ s, c ≠ cp 0x5A) : replaceZulu s = s := by
  induction s with
  | nil => rfl
  | cons c s ih =>
    have hc : c ≠ cp 0x5A := h c (List.mem_cons_self ..)
    have hs := ih fun d hd => h d (List.mem_cons_of_mem _ hd)
    unfold replaceZulu at hs ⊢
    rw [List.flatMap_cons, if_neg hc, hs]
    rfl

theorem digitCp_ne_zulu {d : Nat} (h : d < 10) : digitCp d ≠ cp 0x5A := by
  unfold digitCp
  intro heq
  have hval := congrArg Fin.val heq
  simp at hval
  omega

/-- The text of a time has no `Z`, so that one can be told from an offset. -/
theorem civilText_no_zulu (t : Instant) : ∀ c ∈ civilText t, c ≠ cp 0x5A := by
  have hpad2 (n : Nat) : ∀ c ∈ pad2 n, c ≠ cp 0x5A := by
    intro c hc
    simp only [pad2, List.mem_cons, List.not_mem_nil, or_false] at hc
    rcases hc with rfl | rfl <;> exact digitCp_ne_zulu (by omega)
  have hpad4 (n : Nat) : ∀ c ∈ pad4 n, c ≠ cp 0x5A := by
    intro c hc
    simp only [pad4, List.mem_cons, List.not_mem_nil, or_false] at hc
    rcases hc with rfl | rfl | rfl | rfl <;> exact digitCp_ne_zulu (by omega)
  have hmark : ∀ s ∈ [lit "-", lit "T", lit ":"], ∀ c ∈ s, c ≠ cp 0x5A := by
    have hall : ([lit "-", lit "T", lit ":"].all fun s => s.all fun c => c != cp 0x5A) = true := by
      decide
    simpa using hall
  unfold civilText
  simp only [List.forall_mem_append]
  exact ⟨⟨⟨⟨⟨⟨⟨⟨⟨⟨hpad4 _, hmark _ (by simp)⟩, hpad2 _⟩, hmark _ (by simp)⟩, hpad2 _⟩,
    hmark _ (by simp)⟩, hpad2 _⟩, hmark _ (by simp)⟩, hpad2 _⟩, hmark _ (by simp)⟩, hpad2 _⟩

/-- A stamp reads back as its instant cut to the second. -/
theorem fromisoformat_zulu_stamp (t : Instant) :
    fromisoformat (replaceZulu (stamp t)) = some ⟨t.second.val, some 0⟩ := by
  have hz : replaceZulu (lit "Z") = lit "+00:00" := by decide
  unfold stamp
  rw [replaceZulu_append, replaceZulu_eq_self (civilText_no_zulu t), hz]
  exact fromisoformat_stamp t

end SddGov.Governance
