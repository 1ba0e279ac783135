import Mathlib.Logic.Function.Basic
import SddGov.Effect.Solo
import SddGov.Python.Crypto

/-!
# A directory that others write to

The entries of one directory, reached through a descriptor, with the calls of a
program that claims entries under private names. Other writers may create,
replace, rename and remove any entry at any time; only the private name the
program currently holds is left alone. Files are whole generations: nobody
writes into one.

A call can fail at any time, and a failed call changes nothing. What is answered
about existence is true: `ENOENT` means that there is no such entry, `EEXIST` that
there is one. `log` remembers what the program did to entries.
-/

namespace SddGov.FsSecurity

open SddGov.Effect SddGov.Python

/-- A name in a directory. -/
abbrev Name := PyStr

/-- One generation of a file: device and inode, its kind and its bytes. -/
structure Node where
  identity : Nat × Nat
  regular : Bool
  content : Bytes
  deriving DecidableEq

/-- What `stat` says about a file. -/
structure FileStat where
  identity : Nat × Nat
  regular : Bool
  size : Nat
  mtime : Nat
  ctime : Nat
  nlink : Nat
  deriving DecidableEq

/-- What two looks at one open file are compared by. -/
def FileStat.generation (st : FileStat) : (Nat × Nat) × Nat × Nat × Nat × Nat :=
  (st.identity, st.size, st.mtime, st.ctime, st.nlink)

/-- The calls; there is at most one open file. `renameExclusive` replaces no entry,
`readAll limit` reads to the end of the file or until more than `limit` bytes are read. -/
inductive DirOp
  | tokenHex
  | renameExclusive (source destination : Name)
  | stat (name : Name)
  | openFile (name : Name)
  | fstat
  | readAll (limit : Option Nat)
  | closeFile
  | unlink (name : Name)
  | fsync

/-- The answers. `OsError.other` is also the `NotImplementedError` of a platform
that has no exclusive rename. -/
def DirOp.Resp : DirOp → Type
  | .tokenHex => PyStr
  | .renameExclusive _ _ => Sys Unit
  | .stat _ => Sys FileStat
  | .openFile _ => Sys Unit
  | .fstat => Sys FileStat
  | .readAll _ => Sys Bytes
  | .closeFile => Sys Unit
  | .unlink _ => Sys Unit
  | .fsync => Sys Unit

def dirSig : Sig := ⟨DirOp, DirOp.Resp⟩

/-- A raised exception and the one it was raised from. -/
structure Raised where
  error : Exn
  cause : Option Exn
  deriving DecidableEq

abbrev DirProg (α : Type) := Prog dirSig Raised α

def ask (o : DirOp) : DirProg (dirSig.Resp o) := Prog.perform (S := dirSig) o

/-- Raise the error of a call. -/
def sysAt {α : Type} (p : DirProg (Sys α)) : DirProg α :=
  p.handle
    (fun
      | .ok a => .ret a
      | .error e => .raise ⟨.os e, none⟩)
    .raise

/-! ## The directory -/

/-- What the program did to entries. A refused rename notes whether the destination existed. -/
inductive DirEffect
  | moved (source destination : Name) (node : Node)
  | refused (source destination : Name) (error : OsError) (taken : Bool)
  | unlinked (name : Name) (node : Node)
  deriving DecidableEq

structure Directory where
  entries : Name → Option Node
  /-- the file the program has open -/
  opened : Option Node
  /-- the private name under which the program holds an entry -/
  held : Option (Name × Node)
  log : List DirEffect
  /-- how many calls have failed for another reason than existence -/
  failures : Nat

/-- What `stat` can say about a file; times and links change under the program's hands. -/
def FileStat.Of (st : FileStat) (node : Node) : Prop :=
  st.identity = node.identity ∧ st.regular = node.regular ∧ st.size = node.content.length

/-- What reading can give: everything, or more than the limit. -/
def Reads (limit : Option Nat) (data : Bytes) (node : Node) : Prop :=
  data = node.content ∨ ∃ m, limit = some m ∧ m < data.length ∧ data.length ≤ node.content.length

/-- The answers a call can get. -/
def Directory.allows (w : Directory) : (o : DirOp) → dirSig.Resp o → Prop
  | .renameExclusive s d, .ok _ => w.entries s ≠ none ∧ w.entries d = none
  | .renameExclusive s _, .error .missing => w.entries s = none
  | .renameExclusive _ d, .error .exists => w.entries d ≠ none
  | .stat n, .ok st => ∃ node, w.entries n = some node ∧ st.Of node
  | .stat n, .error .missing => w.entries n = none
  | .openFile n, .ok _ => w.entries n ≠ none
  | .openFile n, .error .missing => w.entries n = none
  | .fstat, .ok st => ∀ node, w.opened = some node → st.Of node
  | .readAll limit, .ok data => ∀ node, w.opened = some node → Reads limit data node
  | .unlink n, .ok _ => w.entries n ≠ none
  | .unlink n, .error .missing => w.entries n = none
  | _, _ => True

/-- One more failed call. -/
def Directory.fail (w : Directory) (e : OsError) : Directory :=
  if e = .other then { w with failures := w.failures + 1 } else w

/-- The entry `source` goes to `destination`. The program holds it there, or gives
it back when it is the one it held. -/
def Directory.move (w : Directory) (source destination : Name) (node : Node) : Directory :=
  { w with
    entries := Function.update (Function.update w.entries source none) destination (some node)
    held := if w.held = some (source, node) then none else some (destination, node)
    log := w.log ++ [.moved source destination node] }

def Directory.remove (w : Directory) (name : Name) (node : Node) : Directory :=
  { w with
    entries := Function.update w.entries name none
    held := if w.held = some (name, node) then none else w.held
    log := w.log ++ [.unlinked name node] }

/-- The directory after an answer. -/
def Directory.next (w : Directory) : (o : DirOp) → dirSig.Resp o → Directory
  | .renameExclusive s d, .ok _ =>
    match w.entries s with
    | some node => w.move s d node
    | none => w
  | .renameExclusive s d, .error e =>
    { w.fail e with log := w.log ++ [.refused s d e (w.entries d).isSome] }
  | .openFile n, .ok _ => { w with opened := w.entries n }
  | .closeFile, .ok _ => { w with opened := none }
  | .closeFile, .error e => { w.fail e with opened := none }
  | .unlink n, .ok _ =>
    match w.entries n with
    | some node => w.remove n node
    | none => w
  | .stat _, .error e => w.fail e
  | .openFile _, .error e => w.fail e
  | .fstat, .error e => w.fail e
  | .readAll _, .error e => w.fail e
  | .unlink _, .error e => w.fail e
  | .fsync, .error e => w.fail e
  | _, _ => w

theorem Directory.next_renameExclusive {w : Directory} {s d : Name} {node : Node} (u : Unit)
    (h : w.entries s = some node) : w.next (.renameExclusive s d) (.ok u) = w.move s d node := by
  simp only [Directory.next, h]

theorem Directory.next_unlink {w : Directory} {n : Name} {node : Node} (u : Unit)
    (h : w.entries n = some node) :
    w.next (.unlink n) (.ok u) = w.remove n node := by
  simp only [Directory.next, h]

/-- What other writers can do: anything, except to the private name that is held. -/
structure Directory.Others (w w' : Directory) : Prop where
  opened : w'.opened = w.opened
  held : w'.held = w.held
  log : w'.log = w.log
  failures : w'.failures = w.failures
  entries : ∀ name node, w.held = some (name, node) → w'.entries name = w.entries name

/-- A program on a directory that others write to. -/
def directorySolo : Solo Directory dirSig where
  allows := Directory.allows
  next := Directory.next
  env := Directory.Others
  refl _ := ⟨rfl, rfl, rfl, rfl, fun _ _ _ => rfl⟩
  trans _ _ _ h h' :=
    ⟨h'.opened.trans h.opened, h'.held.trans h.held, h'.log.trans h.log,
      h'.failures.trans h.failures,
      fun name node hheld => (h'.entries name node (h.held.trans hheld)).trans
        (h.entries name node hheld)⟩

end SddGov.FsSecurity
