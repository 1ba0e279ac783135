import SddGov.Autonomy.PlainDecision
import SddGov.Effect.Check

/-!
# Evidence packages

A debug evidence package (DEP) as the verification sees it: the entries of its
root, and the two artifact zones `private/raw` and `shareable/artifacts`. What
`_read_regular_bytes_at`, `_opened_zone_at`, `_manifest_artifact_path` and
`_actual_zone_files_at` find in a package that nobody writes to.

An entry has no permissions of its own beyond `refused`. A path that is too long for
the file system is an `OSError` where the path is looked at, before anything is read.
-/

namespace SddGov.Evidence

open SddGov.Effect SddGov.Python
open SddGov.Autonomy (pathParts pathText isRelativePath)

/-! ## The tree -/

/-- A regular file with its metadata. -/
structure FileEntry where
  content : Bytes
  links : Nat
  device : Nat
  inode : Nat
  modified : Nat
  deriving DecidableEq

/-- What is at a name. -/
inductive Entry
  | file (f : FileEntry)
  | directory
  | symlink
  | special   -- opens, and is no regular file
  | refused   -- cannot be opened
  deriving DecidableEq

abbrev Entries := List (PyStr × Entry)

def Entries.find (name : PyStr) (entries : Entries) : Option Entry :=
  (entries.find? fun e => e.1 == name).map Prod.snd

/-- What is at the path of a zone, one of whose components may be a link. -/
inductive Zone
  | missing
  | blocked (link : Bool)
  | opened (entries : Entries)

structure Dep where
  /-- the entries of the root but for `private` and `shareable` -/
  documents : Entries
  raw : Zone
  shareable : Zone
  /-- `lstat` finds this path below the package too long -/
  tooLong : PyStr → Bool := fun _ => false

/-- The two kinds of rows in a manifest. -/
inductive Kind
  | raw
  | shareable
  deriving DecidableEq, Repr

def Kind.text : Kind → PyStr
  | .raw => lit "raw"
  | .shareable => lit "shareable"

def Kind.zone : Kind → PyStr
  | .raw => lit "private/raw"
  | .shareable => lit "shareable/artifacts"

def Dep.zone (d : Dep) : Kind → Zone
  | .raw => d.raw
  | .shareable => d.shareable

/-! ## Names -/

/-- `Path(path).name` -/
def nameOf (path : PyStr) : PyStr := (pathParts path).getLast?.getD []

/-- `Path(path).suffix` -/
def suffixOf (path : PyStr) : PyStr :=
  let name := nameOf path
  let tail := (name.reverse.takeWhile (· != cp 0x2E)).reverse
  if tail ≠ [] ∧ tail.length + 1 < name.length then cp 0x2E :: tail else []

/-- A name that no call can take: it holds a NUL, or a surrogate that `os.fsencode` cannot
encode. -/
def unusableName (name : PyStr) : Option PyStr :=
  if name.contains nul then some (lit "embedded null byte")
  else if name.any fun c => 0xD800 ≤ c.val && c.val ≤ 0xDFFF
    && !(0xDC80 ≤ c.val && c.val ≤ 0xDCFF) then
    some (lit "UnicodeEncodeError")
  else none

/-! ## Reading -/

/-- A read that fails: `FileNotFoundError`, or a `ValueError` with its text. -/
inductive ReadError
  | missing
  | bad (message : PyStr)
  deriving DecidableEq

def maxControlBytes : Nat := 1024 * 1024
def maxArtifactBytes : Nat := 10 * 1024 * 1024

/-- `_read_regular_bytes_at`, for a name that is not too long -/
def readRegularBytesAt (entries : Entries) (name label : PyStr) (maxBytes : Nat) :
    Except ReadError FileEntry :=
  if name = [] ∨ nameOf name ≠ name then .error (.bad (label ++ lit " has an invalid filename"))
  else
    match unusableName name with
    | some message => .error (.bad message)
    | none =>
      match entries.find name with
      | none => .error .missing
      | some .symlink => .error (.bad (label ++ lit " must not be a symlink"))
      | some .refused => .error (.bad (label ++ lit " cannot be opened safely: OSError"))
      | some .directory | some .special => .error (.bad (label ++ lit " must be a regular file"))
      | some (.file f) =>
        if f.links ≠ 1 then .error (.bad (label ++ lit " must not be hard-linked"))
        else if maxBytes < f.content.length then
          .error (.bad (label ++ lit " exceeds " ++ natText maxBytes
            ++ lit " bytes; collect a bounded excerpt or summary"))
        else .ok f

/-- `_opened_zone_at(…, create=False)` -/
def openZone (zone : PyStr) : Zone → Except ReadError Entries
  | .missing => .error .missing
  | .blocked _ => .error (.bad (lit "evidence zone cannot be opened safely: " ++ zone))
  | .opened entries => .ok entries

/-- A file in a zone that is opened for it. -/
def readInZone (kind : Kind) (z : Zone) (name label : PyStr) : Except ReadError FileEntry := do
  let entries ← openZone kind.zone z
  readRegularBytesAt entries name label maxArtifactBytes

/-! ## Artifact paths -/

/-- A path that is none of the zone: a `ValueError` with its text, or the `OSError` of `lstat`. -/
inductive PathError
  | bad (message : PyStr)
  | system
  deriving DecidableEq

/-- One of the components above a file is a link. -/
def Zone.isLink : Zone → Bool
  | .blocked link => link
  | _ => false

/-- `is_symlink()` for the components of a path in the zone. -/
def crossesLink (z : Zone) (name : PyStr) : Bool :=
  match z with
  | .missing => false
  | .blocked link => link
  | .opened entries => entries.find name == some .symlink

/-- `_manifest_artifact_path`: the path below the root and its last component. `is_symlink()` raises
the `OSError` of a path that is too long, unless it has met a link above. -/
def manifestArtifactPath (tooLong : PyStr → Bool) (kind : Kind) (z : Zone) (value : Json) :
    Except PathError (PyStr × PyStr) :=
  match value with
  | .str path =>
    if path = [] ∨ path.contains (cp 0x5C) then
      .error (.bad (lit "artifact path is invalid for " ++ kind.zone))
    else if !isRelativePath path || (pathParts path).dropLast != pathParts kind.zone then
      .error (.bad
        (lit "artifact path escapes or is not normalized for " ++ kind.zone ++ lit ": " ++ path))
    else if tooLong path && !z.isLink then .error .system
    else if crossesLink z (nameOf path) then
      .error (.bad (lit "artifact path contains a symlink: " ++ path))
    else .ok (path, nameOf path)
  | _ => .error (.bad (lit "artifact path is invalid for " ++ kind.zone))

/-- The error of one entry of a zone, in `_actual_zone_files_at`. -/
def entryError (zone : PyStr) (e : PyStr × Entry) : Option PyStr :=
  let relative := zone ++ lit "/" ++ e.1
  if e.1 = [] ∨ nameOf e.1 ≠ e.1 then some (lit "artifact filename is not normalized: " ++ relative)
  else
    match e.2 with
    | .symlink => some (lit "artifact path contains a symlink: " ++ relative)
    | .directory | .special => some (lit "artifact path is not a regular file: " ++ relative)
    | .refused => none
    | .file f => if f.links ≠ 1 then
        some (lit "artifact path must not be hard-linked: " ++ relative) else none

/-- `_actual_zone_files_at`: the files of a zone, and the errors. -/
def actualZoneFiles (zone : PyStr) (entries : Entries) : List PyStr × List PyStr :=
  ((entries.filter fun e => (entryError zone e).isNone).map (zone ++ lit "/" ++ ·.1),
    entries.filterMap (entryError zone))

end SddGov.Evidence
