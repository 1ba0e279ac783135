import SddGov.Python.Crypto
import SddGov.Python.Lines

/-!
# The governance lock

The lock is read line by line: blank lines and comments are passed over, a final
backslash carries a line on, and every row must pin one package exactly and name at
least one SHA-256. What parses requirements, versions and file names is
`packaging`, a parameter here.
-/

namespace SddGov.Release

open SddGov.Python

/-! ## `packaging` -/

structure Specifier where
  operator : PyStr
  version : PyStr
  deriving DecidableEq

/-- `packaging.requirements.Requirement` -/
structure Requirement where
  name : PyStr
  url : Option PyStr
  extras : List PyStr
  marker : Option PyStr
  specifier : List Specifier
  deriving DecidableEq

/-- The parsers of `packaging`; `none` is `InvalidVersion` and its like. -/
structure Packaging where
  /-- `Version`, by the key that `==` compares -/
  Version : Type
  versionEq : DecidableEq Version
  version : PyStr → Option Version
  requirement : PyStr → Option Requirement
  canonicalizeName : PyStr → PyStr
  parseWheelFilename : PyStr → Option (PyStr × Version)
  parseSdistFilename : PyStr → Option (PyStr × Version)

instance (P : Packaging) : DecidableEq P.Version := P.versionEq

variable (P : Packaging)

/-! ## Rows -/

def backslash : CodePoint := cp 0x5C

/-- The logical rows of the lines, where `pending` is what has been carried on;
`none` if the last line is. -/
def logicalRows : List PyStr → List PyStr → Option (List PyStr)
  | pending, [] => if pending.isEmpty then some [] else none
  | pending, raw :: lines =>
    let stripped := strip raw
    if stripped.isEmpty || stripped.head? == some (cp 0x23) then logicalRows pending lines
    else if stripped.getLast? == some backslash then
      logicalRows (pending ++ [strip stripped.dropLast]) lines
    else (logicalRows [] lines).map (joinTexts (lit " ") (pending ++ [stripped]) :: ·)

/-- A value of `locked`, with its key. -/
structure LockedRequirement where
  name : PyStr
  version : P.Version
  hashes : List PyStr

/-- The digest of `--hash=sha256:([a-f0-9]{64})`. -/
def hashOf (field : PyStr) : Option PyStr :=
  let option := lit "--hash=sha256:"
  if option.isPrefixOf field && isSha256 (field.drop option.length) then
    some (field.drop option.length) else none

/-- The one version of a requirement that is an exact pin. -/
def exactPin (r : Requirement) : Option PyStr :=
  match r.specifier with
  | [s] =>
    if r.url.isSome || !r.extras.isEmpty || r.marker.isSome || s.operator != lit "=="
        || (lit ".*").isSuffixOf s.version then none
    else some s.version
  | _ => none

/-- One row, after the rows that are in `locked`. -/
def lockRow (locked : List (LockedRequirement P)) (row : PyStr) :
    Except Exn (LockedRequirement P) :=
  match (words row).head?.bind P.requirement with
  | none => .error (valueError "governance lock contains an invalid requirement")
  | some requirement =>
    match exactPin requirement with
    | none => .error (valueError "governance lock requirements must be exact pins")
    | some pinned =>
      match (words row).tail.mapM hashOf with
      | none => .error (valueError "governance lock contains an unsupported option")
      | some hashes =>
        if hashes.isEmpty then
          .error (valueError "governance lock requirement has no SHA-256 hashes")
        else if P.canonicalizeName requirement.name ∈ locked.map (·.name) then
          .error (valueError "governance lock contains a duplicate requirement")
        else
          match P.version pinned with
          | none => .error (valueError "governance lock contains an invalid version")
          | some version => .ok ⟨P.canonicalizeName requirement.name, version, hashes⟩

def lockRows (locked : List (LockedRequirement P)) :
    List PyStr → Except Exn (List (LockedRequirement P))
  | [] => .ok locked
  | row :: rows => do
    let requirement ← lockRow P locked row
    lockRows (locked ++ [requirement]) rows

/-- `_locked_requirements`, from the bytes of the lock. -/
def lockedRequirements (lock : Bytes) : Except Exn (List (LockedRequirement P)) :=
  match utf8Decode lock with
  | none => .error (valueError "UnicodeDecodeError")
  | some text =>
    match logicalRows [] (splitLines text) with
    | none => .error (valueError "governance lock has an unterminated continuation")
    | some rows => do
      let locked ← lockRows P [] rows
      require (!locked.isEmpty) "governance lock contains no requirements"
      pure locked

variable {P}

/-- A row that is accepted names a package that no row before it has named. -/
theorem lockRow_fresh {locked : List (LockedRequirement P)} {row : PyStr} {r : LockedRequirement P}
    (h : lockRow P locked row = .ok r) : r.name ∉ locked.map (·.name) := by
  unfold lockRow at h
  split at h
  · simp at h
  · split at h
    · simp at h
    · split at h
      · simp at h
      · split at h
        · simp at h
        · split at h
          · simp at h
          · next hfresh =>
            split at h
            · simp at h
            · obtain rfl := Except.ok.inj h
              exact hfresh

/-- Locked rows have different names. -/
theorem lockRows_nodup {rows : List PyStr} : ∀ {locked all : List (LockedRequirement P)},
    (locked.map (·.name)).Nodup → lockRows P locked rows = .ok all → (all.map (·.name)).Nodup := by
  induction rows with
  | nil =>
    intro locked all hnodup h
    obtain rfl := Except.ok.inj h
    exact hnodup
  | cons row rows ih =>
    intro locked all hnodup h
    obtain ⟨r, hrow, h⟩ := except_bind_ok.mp h
    have hfresh := lockRow_fresh hrow
    refine ih ?_ h
    rw [List.map_append, List.map_cons, List.map_nil, List.nodup_append]
    refine ⟨hnodup, by simp, ?_⟩
    intro a ha b hb hab
    obtain rfl := List.mem_singleton.mp hb
    exact hfresh (hab ▸ ha)

/-- A lock that is accepted pins every package once. -/
theorem lockedRequirements_nodup {lock : Bytes} {locked : List (LockedRequirement P)}
    (h : lockedRequirements P lock = .ok locked) : (locked.map (·.name)).Nodup := by
  unfold lockedRequirements at h
  split at h
  · simp at h
  · split at h
    · simp at h
    · obtain ⟨all, hall, h⟩ := except_bind_ok.mp h
      obtain ⟨_, -, h⟩ := except_bind_ok.mp h
      obtain rfl := Except.ok.inj h
      exact lockRows_nodup (by simp) hall

end SddGov.Release
