import SddGov.MergeGate.Paths
import SddGov.Python.JsonText
import SddGov.TrustedRunner.Policy

/-!
# The sealed bundle

`TrustedRunner._verify_bundle`: the descriptor, the entries of the archive in it,
the manifest of the sources and the digests that tie them to the operation.

That two entries are not the same, and that a source does not stand in a
reserved place, is tested on the names as they are written. A name can be
written in more than one way: `./a`, `a/.` and `a//b` have the parts of `a` and
`a/b`. What was accepted is unambiguous exactly where no name of that kind
stands for another one (`unambiguous_iff`).
-/

namespace SddGov.TrustedRunner

open SddGov.Python
open SddGov.Autonomy (duplicateName pathParts)
open SddGov.Evidence (slash isComponent_of_mem)
open SddGov.MergeGate (pathParts_join)

/-! ## What is verified -/

/-- What reading an archive raises: `KeyError`, the `OSError` and `BadZipFile` that are caught, or
another exception. -/
inductive ZipError
  | missing
  | invalid
  | raised (e : Exn)

/-- One `ZipInfo` with what `read` gives for it. -/
structure ZipEntry where
  filename : PyStr
  compressType : Nat
  flagBits : Nat
  fileSize : Nat
  content : Except ZipError Bytes

structure FileStat where
  isRegular : Bool
  device : Nat
  inode : Nat
  size : Nat

/-- What the runner sees of the descriptor. -/
structure SealedBundle where
  /-- `fstat`, the seals and the link of the descriptor, `none` for an `OSError` -/
  opened : Option (FileStat × Nat × PyStr)
  content : Bytes
  /-- `fstat` once the content is read -/
  after : FileStat
  /-- `ZipFile(handle).infolist()` -/
  archive : Except ZipError (List ZipEntry)

def sourceManifestPath : PyStr := lit ".agent-factory/source-tree-manifest.json"

def originalSourcePrefix : PyStr := lit ".agent-factory/original/"

/-- `archive.read(name)` -/
def zipRead (entries : List ZipEntry) (name : PyStr) : Except ZipError Bytes :=
  match entries.reverse.find? fun entry => entry.filename == name with
  | some entry => entry.content
  | none => .error .missing

/-- `except (KeyError, OSError, zipfile.BadZipFile)` around the reading. -/
def orZip {α : Type} : Except ZipError α → Except RunnerError α
  | .ok a => .ok a
  | .error (.raised e) => .error (.raised e)
  | .error _ => violation "sealed_bundle_zip_invalid"

/-- The same around another exception. -/
def inZip {α : Type} : Except Exn α → Except RunnerError α
  | .ok a => .ok a
  | .error .key => violation "sealed_bundle_zip_invalid"
  | .error (.os _) => violation "sealed_bundle_zip_invalid"
  | .error e => .error (.raised e)

/-- `value[key]` -/
def subscript (value : Json) (key : PyStr) : Except Exn Json :=
  match value with
  | .obj m =>
    match lookup key m with
    | some v => .ok v
    | none => .error .key
  | _ => .error .type

/-- An exception that nothing catches. -/
def uncaught {α : Type} : Except Exn α → Except RunnerError α
  | .ok a => .ok a
  | .error e => .error (.raised e)

/-! ## The descriptor -/

/-- `_REQUIRED_SEALS` -/
def requiredSeals : Nat := 0xF

section Verify

variable (C : Crypto)

/-- The checks on the descriptor: its size is returned. -/
def checkDescriptor (b : SealedBundle) (operation : Members) : Except RunnerError Nat :=
  match b.opened with
  | none => violation "sealed_bundle_fd_invalid"
  | some (before, seals, link) => do
    check (before.isRegular && decide (lit "memfd:" <:+: link)) "sealed_bundle_not_memfd"
    check (seals &&& requiredSeals == requiredSeals) "sealed_bundle_seals_missing"
    let size ← uncaught (subscript (.obj operation) (lit "sealed_bundle_size_bytes"))
    check (pyEq (.int before.size) size) "sealed_bundle_size_mismatch"
    check (before.size ≤ b.content.length) "sealed_bundle_read_incomplete"
    check (before.device == b.after.device && before.inode == b.after.inode
      && before.size == b.after.size)
      "sealed_bundle_identity_mismatch"
    let expected ← uncaught (subscript (.obj operation) (lit "sealed_bundle_hash"))
    check (pyEq (.str (sha256Text C (b.content.take before.size))) expected)
      "sealed_bundle_identity_mismatch"
    pure before.size

/-! ## The entries -/

/-- A name that is relative and does not climb. -/
def isBundlePath (name : PyStr) : Bool :=
  !name.isEmpty && !name.contains (cp 0) && !name.contains (cp 0x5C) && name.head? != some (cp 0x2F)
    && !(pathParts name).contains (lit "..")

/-- `entry.is_dir()` -/
def isDirectory (name : PyStr) : Bool := name.getLast? == some (cp 0x2F)

/-- The loop over the entries. -/
def checkEntries : List ZipEntry → Except RunnerError Unit
  | [] => .ok ()
  | entry :: rest => do
    check (isBundlePath entry.filename) "sealed_bundle_path_invalid"
    -- 0 is `ZIP_STORED`, and the lowest flag says that the entry is encrypted
    check (!isDirectory entry.filename && entry.compressType == 0 && entry.flagBits % 2 == 0)
      "sealed_bundle_entry_invalid"
    checkEntries rest

def checkNames (operation : Members) (size : Nat) (entries : List ZipEntry) :
    Except RunnerError Unit := do
  let count ← inZip (subscript (.obj operation) (lit "sealed_bundle_entry_count"))
  check (pyEq (.int entries.length) count) "sealed_bundle_entry_count_mismatch"
  check (decide (entries.map ZipEntry.filename).Nodup) "sealed_bundle_duplicate_entry"
  checkEntries entries
  check ((entries.map ZipEntry.fileSize).sum ≤ size) "sealed_bundle_size_amplification"

/-! ## The manifest -/

/-- The manifest, where it is the canonical text of a non-empty list; as in `strictJson`, a
malformed text is reported before a repeated name. -/
def loadManifest (entries : List ZipEntry) : Except RunnerError (List Json) :=
  match zipRead entries sourceManifestPath with
  | .error .missing => violation "source_tree_manifest_invalid"
  | .error e => orZip (.error e)
  | .ok raw =>
    match utf8Decode raw with
    | none => violation "source_tree_manifest_invalid"
    | some text =>
      match parse recursionLimit text with
      | .error .decode => violation "source_tree_manifest_invalid"
      | .error e => .error (.raised (.ofJson e))
      | .ok v =>
        if (duplicateName v).isSome then violation "json_duplicate_key_denied"
        else
          match v with
          | .arr (first :: rest) =>
            match canonicalBytes v with
            | none => .error (.raised (valueError "canonical JSON"))
            | some canonical =>
              if canonical == raw then .ok (first :: rest) else
                violation "source_tree_manifest_invalid"
          | _ => violation "source_tree_manifest_invalid"

def checkKind (kind mode : Json) : Except RunnerError Unit := do
  let known ← uncaught (memberOfSet kind (["file", "symlink"].map lit))
  check known "source_tree_manifest_invalid"
  if pyEq kind (.str (lit "file")) then do
    let permitted ← uncaught (memberOfSet mode (["100644", "100755"].map lit))
    check permitted "source_tree_manifest_invalid"
  else check (pyEq mode (.str (lit "120000"))) "source_tree_manifest_invalid"

/-- The tests on the text of a source path: it is in no reserved place as it is written. -/
def isSourcePath (path : PyStr) : Bool :=
  isBundlePath path && path != lit ".agent-factory" && !(lit ".agent-factory/").isPrefixOf path

/-- The path and the digest of one entry of the manifest. -/
def sourceEntry (seen : List PyStr) : Json → Except RunnerError (PyStr × Json)
  | .obj m =>
    if keysEq m (["path", "kind", "mode", "value_hash"].map lit) then
      match get (lit "path") m with
      | .str path => do
        check (isSourcePath path && !seen.contains path) "source_tree_manifest_invalid"
        checkKind (get (lit "kind") m) (get (lit "mode") m)
        requireSha256 (get (lit "value_hash") m) (lit "source_tree_value_hash")
        pure (path, get (lit "value_hash") m)
      | _ => violation "source_tree_manifest_invalid"
    else violation "source_tree_manifest_invalid"
  | _ => violation "source_tree_manifest_invalid"

/-- Where the source of a path is: a managed one is kept beside the file that replaces it. -/
def originalName (path : PyStr) : PyStr :=
  if managedPaths.contains path then originalSourcePrefix ++ path else path

/-- `value.removeprefix("sha256:")` -/
def withoutAlgorithm : Json → PyStr
  | .str s => if (lit "sha256:").isPrefixOf s then s.drop 7 else s
  | _ => []

/-- A managed source has the digest of the containment profile, and each source its own. -/
def checkSource (operation : Members) (entries : List ZipEntry) (path : PyStr) (hash : Json) :
    Except RunnerError Unit := do
  if managedPaths.contains path then do
    let profile ← inZip (subscript (.obj operation) (lit "containment_profile"))
    let hashes ← inZip (subscript profile (lit "source_hashes"))
    let expected ← inZip (subscript hashes path)
    check (pyEq (.str (withoutAlgorithm hash)) expected) "containment_source_hash_mismatch"
  check ((entries.map ZipEntry.filename).contains (originalName path))
    "source_tree_content_mismatch"
  let raw ← orZip (zipRead entries (originalName path))
  check (pyEq (.str (sha256Text C raw)) hash) "source_tree_content_mismatch"

/-- The loop over the manifest: the paths of its entries. -/
def checkSources (operation : Members) (entries : List ZipEntry) :
    List PyStr → List Json → Except RunnerError (List PyStr)
  | _, [] => .ok []
  | seen, entry :: rest => do
    let source ← sourceEntry seen entry
    checkSource C operation entries source.1 source.2
    let others ← checkSources operation entries (source.1 :: seen) rest
    pure (source.1 :: others)

/-- The names a source path accounts for. -/
def expectedNames (path : PyStr) : List PyStr :=
  if managedPaths.contains path then [path, originalSourcePrefix ++ path] else [path]

/-- The loop over the managed hashes. -/
def checkManaged (entries : List ZipEntry) : Members → Except RunnerError Unit
  | [] => .ok ()
  | (name, expected) :: rest => do
    let raw ← orZip (zipRead entries name)
    check (pyEq (.str (sha256Text C raw)) expected) "managed_bundle_hash_mismatch"
    checkManaged entries rest

/-- The last checks: nothing but the sources and the manifest, and the digests of the operation. -/
def checkBinding (operation : Members) (entries : List ZipEntry) (manifest : List Json)
    (paths : List PyStr) :
    Except RunnerError Unit := do
  let names := entries.map ZipEntry.filename
  let expected := sourceManifestPath :: paths.flatMap expectedNames
  check (names.all (expected.contains ·) && expected.all (names.contains ·))
    "source_tree_binding_mismatch"
  let hash ← canonicalHash C (.arr manifest)
  let treeHash ← inZip (subscript (.obj operation) (lit "source_tree_hash"))
  check (pyEq (.str hash) treeHash) "source_tree_binding_mismatch"
  let managed ← inZip (subscript (.obj operation) (lit "managed_hashes"))
  match managed with
  | .obj m => checkManaged C entries m
  | _ => .error (.raised .attribute)

/-- `TrustedRunner._verify_bundle`. -/
def verifyBundle (b : SealedBundle) (operation : Members) : Except RunnerError Unit := do
  let size ← checkDescriptor C b operation
  let entries ← orZip b.archive
  checkNames operation size entries
  let manifest ← loadManifest entries
  let paths ← checkSources C operation entries [] manifest
  checkBinding C operation entries manifest paths

end Verify

/-! ## What an accepted bundle is -/

/-- The names of the entries. -/
def entryNames (b : SealedBundle) : List PyStr :=
  match b.archive with
  | .ok entries => entries.map ZipEntry.filename
  | .error _ => []

/-- The path of an entry of the manifest. -/
def pathOf : Json → Option PyStr
  | .obj m =>
    match get (lit "path") m with
    | .str path => some path
    | _ => none
  | _ => none

/-- The paths in the manifest. -/
def sourcePaths (b : SealedBundle) : List PyStr :=
  match b.archive with
  | .ok entries =>
    match loadManifest entries with
    | .ok manifest => manifest.filterMap pathOf
    | .error _ => []
  | .error _ => []

/-- The names of the entries as parts of paths: different, inside, and no source in the place of
the runner's own files. -/
structure Unambiguous (names paths : List PyStr) : Prop where
  distinct : names.Pairwise fun a b => pathParts a ≠ pathParts b
  inside : ∀ name ∈ names, name.head? ≠ some (cp 0x2F) ∧ lit ".." ∉ pathParts name
  unreserved : ∀ path ∈ paths, (pathParts path).head? ≠ some (lit ".agent-factory")

/-- A name without empty parts and without `.`. -/
def IsPlain (name : PyStr) : Prop := joinTexts (lit "/") (pathParts name) = name

/-- No name with an empty part or a `.` stands for another name or in a reserved place. -/
structure NoRespelling (names paths : List PyStr) : Prop where
  names : ∀ a ∈ names, ∀ b ∈ names, ¬ IsPlain a → pathParts a = pathParts b → a = b
  paths : ∀ path ∈ paths, ¬ IsPlain path → (pathParts path).head? ≠ some (lit ".agent-factory")

theorem checkEntries_ok {entries : List ZipEntry} (h : checkEntries entries = .ok ()) :
    ∀ name ∈ entries.map ZipEntry.filename, isBundlePath name = true := by
  induction entries with
  | nil => simp
  | cons entry rest ih =>
    obtain ⟨_, hpath, h⟩ := except_bind_ok.mp h
    obtain ⟨_, _, h⟩ := except_bind_ok.mp h
    rw [List.map_cons, List.forall_mem_cons]
    exact ⟨check_ok.mp hpath, ih h⟩

theorem checkNames_ok {operation : Members} {size : Nat} {entries : List ZipEntry}
    (h : checkNames operation size entries = .ok ()) : (entries.map ZipEntry.filename).Nodup
      ∧ ∀ name ∈ entries.map ZipEntry.filename, isBundlePath name = true := by
  obtain ⟨_, _, h⟩ := except_bind_ok.mp h
  obtain ⟨_, _, h⟩ := except_bind_ok.mp h
  obtain ⟨_, hdistinct, h⟩ := except_bind_ok.mp h
  obtain ⟨_, hentries, _⟩ := except_bind_ok.mp h
  exact ⟨of_decide_eq_true (check_ok.mp hdistinct), checkEntries_ok hentries⟩

/-- An entry that is accepted has a path that is not reserved as it is written. -/
theorem sourceEntry_ok {seen : List PyStr} {entry : Json} {source : PyStr × Json}
    (h : sourceEntry seen entry = .ok source) : pathOf entry = some source.1
    ∧ isSourcePath source.1 = true := by
  unfold sourceEntry at h
  split at h
  · next m =>
    split at h
    · split at h
      · next path hpath =>
        obtain ⟨_, htests, h⟩ := except_bind_ok.mp h
        obtain ⟨_, _, h⟩ := except_bind_ok.mp h
        obtain ⟨_, _, h⟩ := except_bind_ok.mp h
        obtain rfl := Except.ok.inj h
        have htests := check_ok.mp htests
        rw [Bool.and_eq_true] at htests
        exact ⟨by simp [pathOf, hpath], htests.1⟩
      · exact absurd h (by simp [violation])
    · exact absurd h (by simp [violation])
  · exact absurd h (by simp [violation])

/-- The sources that are accepted are those of the manifest, each with its digest. -/
theorem checkSources_ok {C : Crypto} {operation : Members} {entries : List ZipEntry}
    {seen paths : List PyStr}
    {manifest : List Json} (h : checkSources C operation entries seen manifest = .ok paths) :
    manifest.filterMap pathOf = paths ∧ ∀ path ∈ paths, isSourcePath path = true := by
  induction manifest generalizing seen paths with
  | nil =>
    obtain rfl := Except.ok.inj h
    simp
  | cons entry rest ih =>
    obtain ⟨source, hsource, h⟩ := except_bind_ok.mp h
    obtain ⟨_, _, h⟩ := except_bind_ok.mp h
    obtain ⟨others, hothers, h⟩ := except_bind_ok.mp h
    obtain rfl := Except.ok.inj h
    obtain ⟨hpath, htests⟩ := sourceEntry_ok hsource
    obtain ⟨hrest, hall⟩ := ih hothers
    rw [List.filterMap_cons_some hpath, hrest, List.forall_mem_cons]
    exact ⟨rfl, htests, hall⟩

/-- The tests on the names of an accepted bundle. -/
structure Tested (names paths : List PyStr) : Prop where
  nodup : names.Nodup
  names : ∀ name ∈ names, isBundlePath name = true
  paths : ∀ path ∈ paths, isSourcePath path = true

/-- An accepted bundle has passed the tests on the names of its entries and sources. -/
theorem verifyBundle_ok {C : Crypto} {b : SealedBundle} {operation : Members}
    (h : verifyBundle C b operation = .ok ()) : Tested (entryNames b) (sourcePaths b) := by
  obtain ⟨size, _, h⟩ := except_bind_ok.mp h
  obtain ⟨entries, harchive, h⟩ := except_bind_ok.mp h
  obtain ⟨_, hnames, h⟩ := except_bind_ok.mp h
  obtain ⟨manifest, hmanifest, h⟩ := except_bind_ok.mp h
  obtain ⟨paths, hpaths, _⟩ := except_bind_ok.mp h
  -- the names and the paths are read from the same archive as the tests
  have hentries : b.archive = .ok entries := by
    unfold orZip at harchive
    split at harchive
    · next entries' hentries => rw [hentries, Except.ok.inj harchive]
    · exact absurd harchive (by simp)
    · exact absurd harchive (by simp [violation])
  obtain ⟨hnodup, hall⟩ := checkNames_ok hnames
  obtain ⟨hof, hsources⟩ := checkSources_ok hpaths
  have hentryNames : entryNames b = entries.map ZipEntry.filename := by simp [entryNames, hentries]
  have hsourcePaths : sourcePaths b = paths := by simp [sourcePaths, hentries, hmanifest, hof]
  rw [hentryNames, hsourcePaths]
  exact ⟨hnodup, hall, hsources⟩

theorem inside_of_isBundlePath {name : PyStr} (h : isBundlePath name = true) :
    name.head? ≠ some (cp 0x2F) ∧ lit ".." ∉ pathParts name := by
  simp only [isBundlePath, Bool.and_eq_true, Bool.not_eq_true', bne_iff_ne] at h
  exact ⟨h.1.2, by simpa using h.2⟩

/-- A plain path below a reserved directory is written as one. -/
theorem unreserved_of_isPlain {path : PyStr} (h : isSourcePath path = true)
    (hplain : IsPlain path) :
    (pathParts path).head? ≠ some (lit ".agent-factory") := by
  intro hhead
  simp only [isSourcePath, Bool.and_eq_true, bne_iff_ne, Bool.not_eq_true'] at h
  unfold IsPlain at hplain
  cases hparts : pathParts path with
  | nil => exact absurd hhead (by simp [hparts])
  | cons part rest =>
    rw [hparts] at hhead hplain
    obtain rfl := Option.some.inj hhead
    -- alone the part is the reserved name; with more parts the path starts with it and a slash
    cases rest with
    | nil => exact h.1.2 hplain.symm
    | cons next rest =>
      have hprefix : (lit ".agent-factory/").isPrefixOf path = true := by
        rw [List.isPrefixOf_iff_prefix, ← hplain]
        exact ⟨joinTexts (lit "/") (next :: rest), rfl⟩
      exact absurd hprefix (by simp [h.2])

/-- Names without a respelling name one file each. -/
theorem unambiguous_of_noRespelling {names paths : List PyStr} (ht : Tested names paths)
    (h : NoRespelling names paths) : Unambiguous names paths := by
  refine ⟨?_, fun name hname => inside_of_isBundlePath (ht.names name hname), ?_⟩
  · refine ht.nodup.imp_of_mem ?_
    intro a b ha hb hne hparts
    -- two plain names with the same parts are the same text, which no name is twice
    by_cases hplain : IsPlain a
    · by_cases hother : IsPlain b
      · exact hne (hplain.symm.trans ((congrArg (joinTexts (lit "/")) hparts).trans hother))
      · exact hne (h.names b hb a ha hother hparts.symm).symm
    · exact hne (h.names a ha b hb hplain hparts)
  · intro path hpath
    by_cases hplain : IsPlain path
    · exact unreserved_of_isPlain (ht.paths path hpath) hplain
    · exact h.paths path hpath hplain

theorem parts_ne {names paths : List PyStr} (h : Unambiguous names paths) {a b : PyStr}
    (ha : a ∈ names) (hb : b ∈ names)
    (hne : a ≠ b) : pathParts a ≠ pathParts b := by
  have : Std.Symm fun a b : PyStr => pathParts a ≠ pathParts b := ⟨fun _ _ => Ne.symm⟩
  exact h.distinct.forall ha hb hne

theorem noRespelling_of_unambiguous {names paths : List PyStr} (h : Unambiguous names paths) :
    NoRespelling names paths := by
  refine ⟨?_, fun path hpath _ => h.unreserved path hpath⟩
  intro a ha b hb _ hparts
  by_contra hne
  exact parts_ne h ha hb hne hparts

/-- The names of an accepted bundle are unambiguous exactly where no name with an empty part or a
`.` stands for another one. -/
theorem unambiguous_iff {C : Crypto} {b : SealedBundle} {operation : Members}
    (h : verifyBundle C b operation = .ok ()) :
    Unambiguous (entryNames b) (sourcePaths b) ↔ NoRespelling (entryNames b) (sourcePaths b) :=
  ⟨noRespelling_of_unambiguous, unambiguous_of_noRespelling (verifyBundle_ok h)⟩

/-! ## A bundle with two spellings of one name -/

/-- The digest of an empty file. -/
def emptyDigest : Nat := 0xe3b0c44298fc1c149afbf4c8996fb92427ae41e4649b934ca495991b7852b855

def emptyHash : PyStr := lit "sha256:" ++ hexDigest emptyDigest

/-- The entry of the manifest for an empty file. -/
def manifestEntry (path : PyStr) : Json :=
  .obj [field "kind" "file", field "mode" "100644", (lit "path", .str path),
    (lit "value_hash", .str emptyHash)]

def manifestOf (paths : List PyStr) : Bytes :=
    (canonicalBytes (.arr (paths.map manifestEntry))).getD []

/-- One file under two names. -/
def respelledPaths : List PyStr := managedPaths ++ [lit "notes.txt", lit "./notes.txt"]

/-- Two files. -/
def distinctPaths : List PyStr := managedPaths ++ [lit "notes.txt", lit "more/notes.txt"]

/-- The digests of the sealed bytes, of an empty file and of the two manifests. -/
def sealedDigest : Nat := 0x2da42fb1d7bd8524e83d5a1e332bad697c8769ba430770a19bec630eb8ffcaa8

def respelledDigest : Nat := 0xef4516191ec033ee4ba1ebd46a6f81626d80664c7878c94232f894e3522a2e0c

def distinctDigest : Nat := 0xe40e1a0856bf97683f8abc7c0767809c1cc5de41e4d52c7b98d069800164f50a

def bundleCrypto : Crypto :=
  .ofTables [(some [], emptyDigest), (some (List.replicate 2000 (byte 0)), sealedDigest),
    (some (manifestOf respelledPaths), respelledDigest),
      (some (manifestOf distinctPaths), distinctDigest)] []

def storedEntry (name : PyStr) (content : Bytes) : ZipEntry where
  filename := name
  compressType := 0
  flagBits := 0
  fileSize := content.length
  content := .ok content

/-- A sealed bundle of empty files. -/
def bundleOf (paths : List PyStr) : SealedBundle where
  opened := some (⟨true, 1, 7, 2000⟩, requiredSeals, lit "/memfd:bundle (deleted)")
  content := List.replicate 2000 (byte 0)
  after := ⟨true, 1, 7, 2000⟩
  archive := .ok (storedEntry sourceManifestPath (manifestOf paths)
    :: (paths.flatMap expectedNames).map fun name => storedEntry name [])

/-- The operation that binds it, by the digest of its manifest. -/
def operationOf (manifestDigest : Nat) : Members :=
  [(lit "sealed_bundle_size_bytes", .int 2000),
    (lit "sealed_bundle_hash", .str (lit "sha256:" ++ hexDigest sealedDigest)),
    (lit "sealed_bundle_entry_count", .int 13),
    (lit "source_tree_hash", .str (lit "sha256:" ++ hexDigest manifestDigest)),
    (lit "containment_profile", .obj [(lit "source_hashes",
      .obj (managedPaths.map fun path => (path, .str (hexDigest emptyDigest))))]),
    (lit "managed_hashes", .obj (managedPaths.map fun path => (path, .str emptyHash)))]

theorem respelledBundle_ok :
    verifyBundle bundleCrypto (bundleOf respelledPaths) (operationOf respelledDigest) = .ok () := by
  decide +kernel

theorem distinctBundle_ok :
    verifyBundle bundleCrypto (bundleOf distinctPaths) (operationOf distinctDigest) = .ok () := by
  decide +kernel

theorem parts_respelled : ¬ Unambiguous (entryNames (bundleOf respelledPaths))
    (sourcePaths (bundleOf respelledPaths)) := by
  intro hnames
  have hone : lit "notes.txt" ∈ entryNames (bundleOf respelledPaths) := by decide
  have hother : lit "./notes.txt" ∈ entryNames (bundleOf respelledPaths) := by decide
  exact parts_ne hnames hone hother (by decide) (by decide)

/-- Both bundles are accepted: with one file under two names both sides fail, with two files both
hold. -/
theorem respelled_unambiguous_iff :
    (Unambiguous (entryNames (bundleOf respelledPaths)) (sourcePaths (bundleOf respelledPaths))
        ↔ NoRespelling (entryNames (bundleOf respelledPaths))
          (sourcePaths (bundleOf respelledPaths)))
      ∧ (Unambiguous (entryNames (bundleOf distinctPaths)) (sourcePaths (bundleOf distinctPaths))
        ↔ NoRespelling (entryNames (bundleOf distinctPaths)) (sourcePaths (bundleOf distinctPaths)))
      ∧ Unambiguous (entryNames (bundleOf distinctPaths))
        (sourcePaths (bundleOf distinctPaths)) := by
  have hdistinct := unambiguous_iff distinctBundle_ok
  refine ⟨unambiguous_iff respelledBundle_ok, hdistinct, hdistinct.mpr ⟨?_, ?_⟩⟩
  · have hplain : (entryNames (bundleOf distinctPaths)).all
      (fun a => joinTexts (lit "/") (pathParts a) == a) = true := by
      decide +kernel
    exact fun a ha b hb hnot => absurd (eq_of_beq (List.all_eq_true.mp hplain a ha)) hnot
  · have hplain : (sourcePaths (bundleOf distinctPaths)).all
      (fun a => joinTexts (lit "/") (pathParts a) == a) = true := by
      decide +kernel
    exact fun path hpath hnot => absurd (eq_of_beq (List.all_eq_true.mp hplain path hpath)) hnot

theorem respelled_name_accepted : ¬ ∀ (C : Crypto) (b : SealedBundle) (operation : Members),
    verifyBundle C b operation = .ok () → Unambiguous (entryNames b) (sourcePaths b) :=
  fun h => parts_respelled (h _ _ _ respelledBundle_ok)

end SddGov.TrustedRunner
