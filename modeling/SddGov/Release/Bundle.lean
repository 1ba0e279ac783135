import SddGov.Release.Inputs

/-!
# The offline release bundle

`prepare_release_bundle` checks the distributions and each wheel against the lock, copies
what it has checked into a directory that nobody else writes, and makes the archive
and the two lists of digests from the copies. A wheel is identified, hashed and copied
in separate passes, which all see its content at the opening; so the archive holds the
wheels that were checked, one for each row of the lock (`bundle_shipped`).
-/

namespace SddGov.Release

open SddGov.Python SddGov.Python.Clock

/-! ## Inputs -/

/-- The inputs, as they change, and the output directory. -/
structure Host where
  dist : Nat → Except Exn Folder
  wheelhouse : Nat → Except Exn Folder
  /-- the directory of the lock -/
  lockFolder : Nat → Except Exn Folder
  lockName : PyStr
  outputPath : PyStr
  /-- the names in the output directory, when it has been opened or made -/
  output : Nat → Except Exn (List PyStr)
  /-- whether a call on the output succeeds -/
  device : Nat → Except Exn Unit

/-- The inputs that are held open. -/
structure Opened where
  lock : OpenedFile
  distributions : List OpenedFile
  project : OpenedFile
  source : OpenedFile
  wheels : List OpenedFile

def isWheel (f : OpenedFile) : Bool := Evidence.suffixOf f.name == lit ".whl"

/-- The wheel and the source archive of a distribution directory. -/
def distributionPair (distributions : List OpenedFile) : Option (OpenedFile × OpenedFile) :=
  match distributions.filter isWheel, distributions.filter fun f =>
    (lit ".tar.gz").isSuffixOf f.name with
  | [wheel], [source] => if distributions.length = 2 then some (wheel, source) else none
  | _, _ => none

def openInputs (host : Host) : Timed Opened := do
  let dist ← call host.dist
  let wheelhouse ← call host.wheelhouse
  let parent ← call host.lockFolder
  let lock ← parent.openRegularFile (lit "governance lock") host.lockName
  let distributions ← dist.openAll (lit "distribution")
  let pair ← expect (distributionPair distributions)
    (lit "dist must contain exactly one wheel and one .tar.gz source archive")
  let wheels ← wheelhouse.openAll (lit "dependency wheel")
  check (!wheels.isEmpty && wheels.all isWheel)
    (lit "wheelhouse must contain only one or more dependency wheels")
  pure ⟨lock, distributions, pair.1, pair.2, wheels⟩

/-- All inputs were opened by `t`. -/
structure Opened.By (i : Opened) (t : Nat) : Prop where
  lock : i.lock.opened ≤ t
  distributions : ∀ f ∈ i.distributions, f.opened ≤ t
  project : i.project ∈ i.distributions
  source : i.source ∈ i.distributions
  two : i.distributions.length = 2
  wheels : ∀ f ∈ i.wheels, f.opened ≤ t

theorem Opened.By.mono {i : Opened} {t u : Nat} (h : i.By t) (htu : t ≤ u) : i.By u where
  lock := Nat.le_trans h.lock htu
  distributions f hf := Nat.le_trans (h.distributions f hf) htu
  project := h.project
  source := h.source
  two := h.two
  wheels f hf := Nat.le_trans (h.wheels f hf) htu

/-- The pair is among the distributions, and there is no third. -/
theorem distributionPair_mem {distributions : List OpenedFile} {pair : OpenedFile × OpenedFile}
    (h : distributionPair distributions = some pair) :
    pair.1 ∈ distributions ∧ pair.2 ∈ distributions ∧ distributions.length = 2 := by
  unfold distributionPair at h
  split at h
  · next wheel source hwheel hsource =>
    split at h
    · next htwo =>
      obtain rfl := Option.some.inj h
      exact ⟨List.mem_of_mem_filter (hwheel ▸ List.mem_singleton_self wheel),
        List.mem_of_mem_filter (hsource ▸ List.mem_singleton_self source), htwo⟩
    · simp at h
  · simp at h

/-- The inputs that are opened are the files of the host at the times at which each was read. -/
theorem openInputs_ok {host : Host} {t u : Nat} {i : Opened}
    (h : (openInputs host).run t = (.ok i, u)) : i.By u := by
  obtain ⟨dist, _, -, h⟩ := timed_bind_ok.mp h
  obtain ⟨wheelhouse, _, -, h⟩ := timed_bind_ok.mp h
  obtain ⟨parent, _, -, h⟩ := timed_bind_ok.mp h
  obtain ⟨lock, s, hlock, h⟩ := timed_bind_ok.mp h
  obtain ⟨distributions, s', hdistributions, h⟩ := timed_bind_ok.mp h
  obtain ⟨pair, _, hrun, h⟩ := timed_bind_ok.mp h
  obtain ⟨hpair, rfl⟩ := expect_ok.mp hrun
  obtain ⟨wheels, v, hwheels, h⟩ := timed_bind_ok.mp h
  obtain ⟨_, _, hrun, h⟩ := timed_bind_ok.mp h
  obtain ⟨-, rfl⟩ := check_ok.mp hrun
  obtain ⟨rfl, rfl⟩ := timed_pure_ok.mp h
  have hfirst := Timed.le hdistributions
  have hsecond := Timed.le hwheels
  obtain ⟨hproject, hsource, htwo⟩ := distributionPair_mem hpair
  refine ⟨?_, ?_, hproject, hsource, htwo, openAll_opened hwheels⟩
  · have hle := openRegularFile_opened hlock
    show lock.opened ≤ v
    omega
  · intro f hf
    exact Nat.le_trans (openAll_opened hdistributions f hf) hsecond

/-! ## Checks -/

variable (P : Packaging) (A : Archives) (C : Crypto)

def checkInputs (fuel : Nat) (version : PyStr) (i : Opened) :
    Timed (List (LockedRequirement P)) := do
  let expected ← expect (P.version version) (lit "release version is invalid")
  let project ← wheelIdentity P A i.project (lit "project wheel")
  let source ← sdistIdentity P A i.source
  check (project.1 == source.1 && project.2 == expected && source.2 == expected)
    (lit "project wheel and source archive version must match the release")
  let lock ← i.lock.pass fuel
  let locked ← ofExcept (lockedRequirements P lock)
  let names ← checkWheels P A C fuel locked [] i.wheels
  check (names.all (· ∈ locked.map (·.name)) && locked.all (·.name ∈ names))
    (lit "wheelhouse does not exactly cover the governance lock")
  pure locked

variable {P A C}

/-- Inputs that pass: the wheels satisfy the rows of the lock, one to one, and the project wheel and
the source archive are of one project, in the version that is released. -/
theorem checkInputs_ok {fuel : Nat} {version : PyStr} {i : Opened} {t u : Nat}
    {locked : List (LockedRequirement P)}
    (h : (checkInputs P A C fuel version i).run t = (.ok locked, u)) (hi : i.By t) :
    lockedRequirements P i.lock.bytes = .ok locked
      ∧ (∃ rows, rows.Perm locked ∧ List.Forall₂ (fun f row => Satisfies A C f.name f.bytes row)
        i.wheels rows)
      ∧ ∃ name v, P.version version = some v ∧ IsWheel P A i.project.name i.project.bytes (name, v)
        ∧ IsSource P A i.source.name i.source.bytes (name, v) := by
  obtain ⟨expected, _, hrun, h⟩ := timed_bind_ok.mp h
  obtain ⟨hexpected, rfl⟩ := expect_ok.mp hrun
  obtain ⟨project, s, hproject, h⟩ := timed_bind_ok.mp h
  obtain ⟨source, s', hsource, h⟩ := timed_bind_ok.mp h
  obtain ⟨_, _, hrun, h⟩ := timed_bind_ok.mp h
  obtain ⟨hversion, rfl⟩ := check_ok.mp hrun
  obtain ⟨lock, v, hlock, h⟩ := timed_bind_ok.mp h
  obtain ⟨locked', _, hrun, h⟩ := timed_bind_ok.mp h
  obtain ⟨hlocked, rfl⟩ := ofExcept_ok.mp hrun
  obtain ⟨names, w, hnames, h⟩ := timed_bind_ok.mp h
  obtain ⟨_, _, hrun, h⟩ := timed_bind_ok.mp h
  obtain ⟨hcover, rfl⟩ := check_ok.mp hrun
  obtain ⟨rfl, rfl⟩ := timed_pure_ok.mp h
  have hs := hi.mono (Nat.le_trans (Timed.le hproject) (Timed.le hsource))
  obtain rfl := pass_ok hlock hs.lock
  obtain ⟨rows, hrows, hsub, rfl, hnodup⟩ := checkWheels_ok hnames
    (hs.mono (Timed.le hlock)).wheels List.nodup_nil
  simp only [Bool.and_eq_true, beq_iff_eq] at hversion
  have hwheel := wheelIdentity_ok hproject (hi.distributions _ hi.project)
  have hsdist := sdistIdentity_ok hsource
    (Nat.le_trans (hi.distributions _ hi.source) (Timed.le hproject))
  obtain ⟨⟨hnames, hreleased⟩, hsourced⟩ := hversion
  refine ⟨hlocked, ⟨rows, ?_, hrows⟩, project.1, expected, hexpected, ?_, ?_⟩
  · rw [List.nil_append] at hnodup hcover
    apply rows_perm (lockedRequirements_nodup hlocked) hnodup hsub
    intro row hrow
    have hall := (Bool.and_eq_true_iff.mp hcover).2
    simpa using List.all_eq_true.mp hall row hrow
  · rw [← hreleased]
    exact hwheel
  · rw [hnames, ← hsourced]
    exact hsdist

/-! ## The output directory -/

/-- A path below the output directory. -/
abbrev Path := List PyStr

/-- The files below the output directory, which nobody else writes. -/
abbrev Tree := List (Path × Bytes)

/-- No path is there twice. -/
def Tree.Distinct (T : Tree) : Prop := (T.map Prod.fst).Nodup

def Tree.find (T : Tree) (path : Path) : Option Bytes :=
    (List.find? (fun e => e.1 == path) T).map Prod.snd

/-- `as_posix` -/
def asPosix (path : Path) : PyStr := joinTexts (lit "/") path

/-- A directory of the release. -/
structure OutputFolder where
  label : PyStr
  path : Path

def releaseOutput : OutputFolder := ⟨lit "release output", []⟩
def releaseDistributions : OutputFolder := ⟨lit "release distributions", [lit "distributions"]⟩
def offline : OutputFolder := ⟨lit "offline release", [lit "offline"]⟩
def offlineDistributions : OutputFolder :=
    ⟨lit "offline distributions", [lit "offline", lit "distributions"]⟩
def offlineWheelhouse : OutputFolder :=
    ⟨lit "offline wheelhouse", [lit "offline", lit "wheelhouse"]⟩

variable (device : Nat → Except Exn Unit)

/-- `_new_file_descriptor` -/
def OutputFolder.create (d : OutputFolder) (T : Tree) (name : PyStr) : Timed Unit := do
  safeDirectName name (lit "release output in " ++ d.label)
  call device
  ofExcept (if d.path ++ [name] ∈ T.map Prod.fst then .error (.os .exists) else .ok ())

/-- `write_bytes` -/
def OutputFolder.writeBytes (d : OutputFolder) (T : Tree) (name : PyStr) (value : Bytes) :
    Timed Tree := do
  d.create device T name
  call device
  pure (T ++ [(d.path ++ [name], value)])

/-- `copy_to_at`, with `write_from_descriptor` -/
def OpenedFile.copyToAt (f : OpenedFile) (fuel : Nat) (d : OutputFolder) (T : Tree) (name : PyStr) :
    Timed Tree := do
  f.verifyUnchanged
  d.create device T name
  let data ← f.readChunks fuel 0
  call device
  f.verifyUnchanged
  pure (T ++ [(d.path ++ [name], data)])

def copyAll (fuel : Nat) (d : OutputFolder) : Tree → List OpenedFile → Timed Tree
  | T, [] => pure T
  | T, source :: rest => do
    let T ← source.copyToAt device fuel d T source.name
    copyAll fuel d T rest

/-- A file that has been written, opened again and read. -/
def OutputFolder.readBytes (d : OutputFolder) (T : Tree) (label : PyStr) (relative : Path) :
    Timed Bytes := do
  let _ ← each (fun part => safeDirectName part (lit "directory for " ++ label)) relative.dropLast
  safeDirectName (relative.getLastD []) label
  call device
  ofExcept (((T.find (d.path ++ relative)).elim (.error (.os .missing)) .ok))

variable {device}

/-- With different paths, a file is found under its own. -/
theorem find_of_mem {T : Tree} (h : T.Distinct) {path : Path} {data : Bytes}
    (hmem : (path, data) ∈ T) :
    T.find path = some data := by
  unfold Tree.find
  induction T with
  | nil => simp at hmem
  | cons e rest ih =>
    have hnodup := List.nodup_cons.mp h
    rcases List.mem_cons.mp hmem with rfl | hrest
    · simp
    · rw [List.find?_cons_of_neg]
      · exact ih hnodup.2 hrest
      · intro heq
        apply hnodup.1
        rw [eq_of_beq heq]
        exact List.mem_map_of_mem hrest

/-- A created file has a path that no other file had. -/
theorem create_ok {d : OutputFolder} {T : Tree} {name : PyStr} {t u : Nat} {a : Unit} {data : Bytes}
    (h : (d.create device T name).run t = (.ok a, u)) (hT : T.Distinct) :
    Tree.Distinct (T ++ [(d.path ++ [name], data)]) := by
  obtain ⟨_, _, -, h⟩ := timed_bind_ok.mp h
  obtain ⟨_, _, -, h⟩ := timed_bind_ok.mp h
  obtain ⟨hnew, -⟩ := ofExcept_ok.mp h
  split at hnew
  · simp at hnew
  · next hfresh =>
    unfold Tree.Distinct
    rw [List.map_append, List.map_cons, List.map_nil, List.nodup_append]
    refine ⟨hT, by simp, ?_⟩
    intro p hp q hq hpq
    obtain rfl : q = d.path ++ [name] := by simpa using hq
    exact hfresh (hpq ▸ hp)

theorem writeBytes_ok {d : OutputFolder} {T T' : Tree} {name : PyStr} {value : Bytes} {t u : Nat}
    (h : (d.writeBytes device T name value).run t = (.ok T', u)) (hT : T.Distinct) :
    T' = T ++ [(d.path ++ [name], value)] ∧ T'.Distinct := by
  obtain ⟨_, _, hcreate, h⟩ := timed_bind_ok.mp h
  obtain ⟨_, _, -, h⟩ := timed_bind_ok.mp h
  obtain ⟨rfl, -⟩ := timed_pure_ok.mp h
  exact ⟨rfl, create_ok hcreate hT⟩

/-- A copy is the content at the opening. -/
theorem copyToAt_ok {f : OpenedFile} {fuel : Nat} {d : OutputFolder} {T T' : Tree} {name : PyStr}
    {t u : Nat}
    (h : (f.copyToAt device fuel d T name).run t = (.ok T', u)) (hopened : f.opened ≤ t)
    (hT : T.Distinct) :
    T' = T ++ [(d.path ++ [name], f.bytes)] ∧ T'.Distinct := by
  obtain ⟨_, s, hbefore, h⟩ := timed_bind_ok.mp h
  obtain ⟨_, s', hcreate, h⟩ := timed_bind_ok.mp h
  obtain ⟨data, v, hread, h⟩ := timed_bind_ok.mp h
  obtain ⟨_, w, hsync, h⟩ := timed_bind_ok.mp h
  obtain ⟨_, _, hafter, h⟩ := timed_bind_ok.mp h
  obtain ⟨rfl, -⟩ := timed_pure_ok.mp h
  have hstart := Nat.le_trans (Timed.le hbefore) (Timed.le hcreate)
  rw [readChunks_unchanged hread hafter (Nat.le_trans hopened hstart) (Timed.le hsync)]
  exact ⟨rfl, create_ok hcreate hT⟩

/-- Each file of the list is copied to its name in the folder, and paths stay different. The
induction is on the list. -/
theorem copyAll_ok {fuel : Nat} {d : OutputFolder} {files : List OpenedFile} :
    ∀ {T T' : Tree} {t u : Nat}, (copyAll device fuel d T files).run t = (.ok T', u) →
      (∀ f ∈ files, f.opened ≤ t) → T.Distinct →
      T' = T ++ files.map (fun f => (d.path ++ [f.name], f.bytes)) ∧ T'.Distinct := by
  induction files with
  | nil =>
    intro T T' t u h _ hT
    obtain ⟨rfl, -⟩ := timed_pure_ok.mp h
    exact ⟨by simp, hT⟩
  | cons f rest ih =>
    intro T T' t u h hopened hT
    obtain ⟨T₁, s, hcopy, h⟩ := timed_bind_ok.mp h
    obtain ⟨rfl, hdistinct⟩ := copyToAt_ok hcopy (hopened f List.mem_cons_self) hT
    have hrest : ∀ g ∈ rest, g.opened ≤ s := fun g hg =>
      Nat.le_trans (hopened g (List.mem_cons_of_mem f hg)) (Timed.le hcopy)
    obtain ⟨rfl, hdistinct⟩ := ih h hrest hdistinct
    exact ⟨by simp, hdistinct⟩

theorem readBytes_ok {d : OutputFolder} {T : Tree} {label : PyStr} {relative : Path} {t u : Nat}
    {data : Bytes}
    (h : (d.readBytes device T label relative).run t = (.ok data, u)) :
    T.find (d.path ++ relative) = some data := by
  obtain ⟨_, _, -, h⟩ := timed_bind_ok.mp h
  obtain ⟨_, _, -, h⟩ := timed_bind_ok.mp h
  obtain ⟨_, _, -, h⟩ := timed_bind_ok.mp h
  obtain ⟨hfound, -⟩ := ofExcept_ok.mp h
  cases hfind : T.find (d.path ++ relative) with
  | none => simp [hfind] at hfound
  | some found => simpa [hfind] using hfound

/-! ## The lists of digests -/

/-- The rows of a list of digests. -/
def sumsText (rows : List (PyStr × PyStr)) : PyStr :=
  joinTexts (lit "\n") (rows.map fun row => row.2 ++ lit "  " ++ row.1) ++ lit "\n"

def sumsBytes (rows : List (PyStr × PyStr)) : Timed Bytes :=
  expect (utf8Encode (sumsText rows)) (lit "UnicodeEncodeError")

variable (C device) in
/-- `_manifest_bytes` -/
def manifestBytes (d : OutputFolder) (T : Tree) (relatives : List Path) : Timed Bytes := do
  let rows ← each (fun relative => do
    let data ← d.readBytes device T (lit "release manifest input") relative
    pure (asPosix relative, C.sha256 data)) relatives
  sumsBytes rows

/-- The order of `public_rows.sort()`. -/
def rowLe (a b : PyStr × PyStr) : Bool := if a.1 = b.1 then strLe a.2 b.2 else strLe a.1 b.1

/-! ## The bundle -/

def lockAsset : PyStr := lit "requirements-governance.lock"
def sumsName : PyStr := lit "SHA256SUMS.txt"

variable (device) in
/-- The copies of all inputs. -/
def copyInputs (fuel : Nat) (i : Opened) : Timed Tree := do
  let T ← copyAll device fuel releaseDistributions [] i.distributions
  let T ← i.project.copyToAt device fuel offlineDistributions T i.project.name
  let T ← copyAll device fuel offlineWheelhouse T i.wheels
  i.lock.copyToAt device fuel offline T lockAsset

/-- `offline_paths`, before they are sorted. -/
def assetPaths (i : Opened) : List Path :=
  [lit "distributions", i.project.name] :: i.wheels.map (fun f => [lit "wheelhouse", f.name])
    ++ [[lockAsset]]

def sortPaths (paths : List Path) : List Path := paths.insertionSort fun a b =>
    strLe (asPosix a) (asPosix b) = true

def archiveRoot (version platformLabel : PyStr) : PyStr :=
  lit "agentic-sdd-governance-" ++ version ++ lit "-offline-" ++ platformLabel

variable (device) in
/-- The entries of the archive, read from the copies. -/
def archiveEntries (root : PyStr) (T : Tree) (paths : List Path) : Timed (List (PyStr × Bytes)) :=
  each (fun relative => do
    let data ← offline.readBytes device T (lit "offline bundle asset") relative
    pure (root ++ lit "/" ++ asPosix relative, data)) ([sumsName] :: paths)

variable (C device) in
/-- `public_rows` -/
def publicRows (T : Tree) (i : Opened) (archiveName : PyStr) : Timed (List (PyStr × PyStr)) := do
  let rows ← each (fun name => do
    let data ← releaseDistributions.readBytes device T (lit "public distribution") [name]
    pure (name, C.sha256 data)) (i.distributions.map (·.name))
  let archive ← releaseOutput.readBytes device T (lit "public offline archive") [archiveName]
  pure ((rows ++ [(archiveName, C.sha256 archive)]).insertionSort fun a b => rowLe a b = true)

/-- What is returned, with what has been written. -/
structure Bundle where
  version : PyStr
  platformLabel : PyStr
  projectWheel : PyStr
  dependencyWheelCount : Nat
  offlineArchive : PyStr
  publicAssetCount : Nat
  /-- the entries of the archive, in order -/
  entries : List (PyStr × Bytes)
  /-- the files below the output directory -/
  files : Tree

variable (A C) in
/-- From the checked inputs to the end. -/
def writeBundle (host : Host) (fuel : Nat) (version platformLabel : PyStr) (i : Opened) :
    Timed Bundle := do
  let existing ← call host.output
  check existing.isEmpty (lit "release output must be absent or empty: " ++ host.outputPath)
  -- `make_directory` four times, each below one that this run has made
  let _ ← each (fun _ => call host.device) [releaseDistributions, offline, offlineDistributions,
    offlineWheelhouse]
  let T ← copyInputs host.device fuel i
  let paths := sortPaths (assetPaths i)
  let manifest ← manifestBytes C host.device offline T paths
  let T ← offline.writeBytes host.device T sumsName manifest
  let root := archiveRoot version platformLabel
  let archiveName := root ++ lit ".zip"
  releaseOutput.create host.device T archiveName
  let entries ← archiveEntries host.device root T paths
  call host.device
  let T : Tree := T ++ [(releaseOutput.path ++ [archiveName], A.zipped entries)]
  let rows ← publicRows C host.device T i archiveName
  let sums ← sumsBytes rows
  let T ← releaseOutput.writeBytes host.device T sumsName sums
  pure ⟨version, platformLabel, i.project.name, i.wheels.length, archiveName, rows.length + 1,
    entries, T⟩

variable (P A C) in
/-- `prepare_release_bundle` -/
def prepareReleaseBundle (host : Host) (fuel : Nat) (version platformLabel : PyStr) :
    Timed Bundle := do
  check (safeName version) (lit "release version must be a safe non-empty identifier")
  check (safeName platformLabel) (lit "platform label must be a safe non-empty identifier")
  let i ← openInputs host
  let _ ← checkInputs P A C fuel version i
  writeBundle A C host fuel version platformLabel i

/-- The files under `offline` that the list of digests covers, by their paths there. -/
def assets (i : Opened) : List (Path × Bytes) :=
  ([lit "distributions", i.project.name], i.project.bytes)
    :: i.wheels.map (fun f => ([lit "wheelhouse", f.name], f.bytes))
      ++ [([lockAsset], i.lock.bytes)]

/-- The assets in the order of the archive. -/
def sortedAssets (i : Opened) : List (Path × Bytes) :=
  (assets i).insertionSort fun a b => strLe (asPosix a.1) (asPosix b.1) = true

theorem sortedAssets_perm (i : Opened) : (sortedAssets i).Perm (assets i) :=
    List.perm_insertionSort _ _

theorem sortedAssets_paths (i : Opened) : (sortedAssets i).map Prod.fst
    = sortPaths (assetPaths i) := by
  unfold sortedAssets sortPaths
  rw [List.map_insertionSort (r := fun a b : Path × Bytes =>
    strLe (asPosix a.1) (asPosix b.1) = true)
    (s := fun a b : Path => strLe (asPosix a) (asPosix b) = true) _ _ fun _ _ _ _ => Iff.rfl]
  congr 1
  simp [assets, assetPaths, Function.comp_def]

/-- Every opened input is copied to its place, and no two have one place. -/
theorem copyInputs_ok {fuel : Nat} {i : Opened} {T : Tree} {t u : Nat}
    (h : (copyInputs device fuel i).run t = (.ok T, u)) (hi : i.By t) :
    T.Distinct ∧ (∀ a ∈ assets i, (offline.path ++ a.1, a.2) ∈ T)
      ∧ ∀ f ∈ i.distributions, (releaseDistributions.path ++ [f.name], f.bytes) ∈ T := by
  obtain ⟨T₁, s₁, hcopy₁, h⟩ := timed_bind_ok.mp h
  obtain ⟨T₂, s₂, hcopy₂, h⟩ := timed_bind_ok.mp h
  obtain ⟨T₃, s₃, hcopy₃, h⟩ := timed_bind_ok.mp h
  have h₁ := hi.mono (Timed.le hcopy₁)
  have h₂ := h₁.mono (Timed.le hcopy₂)
  have h₃ := h₂.mono (Timed.le hcopy₃)
  obtain ⟨rfl, hT⟩ := copyAll_ok hcopy₁ hi.distributions (by simp [Tree.Distinct])
  obtain ⟨rfl, hT⟩ := copyToAt_ok hcopy₂ (h₁.distributions _ h₁.project) hT
  obtain ⟨rfl, hT⟩ := copyAll_ok hcopy₃ h₂.wheels hT
  obtain ⟨rfl, hT⟩ := copyToAt_ok h h₃.lock hT
  refine ⟨hT, ?_, ?_⟩
  · intro a ha
    simp only [assets, List.cons_append, List.mem_cons, List.mem_append, List.mem_map,
      List.mem_nil_iff, or_false] at ha
    rcases ha with rfl | ⟨f, hf, rfl⟩ | rfl
    · simp [offline, offlineDistributions]
    · simp only [offline, offlineWheelhouse, List.mem_append, List.mem_map]
      exact .inl (.inr ⟨f, hf, rfl⟩)
    · simp [offline]
  · intro f hf
    simp only [List.nil_append, List.mem_append, List.mem_map]
    exact .inl (.inl (.inl ⟨f, hf, rfl⟩))

/-- The list of digests has a row for every asset, of the bytes that are there. -/
theorem manifestBytes_ok {d : OutputFolder} {T : Tree} {files : List (Path × Bytes)}
    {manifest : Bytes} {t u : Nat}
    (h : (manifestBytes C device d T (files.map Prod.fst)).run t = (.ok manifest, u))
    (hfiles : ∀ a ∈ files, T.find (d.path ++ a.1) = some a.2) :
    utf8Encode (sumsText (files.map fun a => (asPosix a.1, C.sha256 a.2))) = some manifest := by
  obtain ⟨rows, s, hrows, h⟩ := timed_bind_ok.mp h
  have heq := each_map (g := fun a => (asPosix a.1, C.sha256 a.2)) (fun a ha s v row hrow => by
    obtain ⟨data, _, hread, hrow⟩ := timed_bind_ok.mp hrow
    obtain ⟨rfl, -⟩ := timed_pure_ok.mp hrow
    obtain rfl := Option.some.inj ((readBytes_ok hread).symm.trans (hfiles a ha))
    rfl) hrows
  rw [← heq]
  exact (expect_ok.mp h).1

/-- The archive has the list of digests first, then every asset. -/
theorem archiveEntries_ok {root : PyStr} {T : Tree} {files : List (Path × Bytes)} {manifest : Bytes}
    {entries : List (PyStr × Bytes)} {t u : Nat}
    (h : (archiveEntries device root T (files.map Prod.fst)).run t = (.ok entries, u))
    (hmanifest : T.find (offline.path ++ [sumsName]) = some manifest)
    (hfiles : ∀ a ∈ files, T.find (offline.path ++ a.1) = some a.2) :
    entries = (([sumsName], manifest) :: files).map fun a =>
    (root ++ lit "/" ++ asPosix a.1, a.2) := by
  have hall : ∀ a ∈ ([sumsName], manifest) :: files, T.find (offline.path ++ a.1) = some a.2 := by
    intro a ha
    rcases List.mem_cons.mp ha with rfl | ha
    · exact hmanifest
    · exact hfiles a ha
  refine each_map (k := Prod.fst) (fun a ha s v entry hentry => ?_) h
  obtain ⟨data, _, hread, hentry⟩ := timed_bind_ok.mp hentry
  obtain ⟨rfl, -⟩ := timed_pure_ok.mp hentry
  obtain rfl := Option.some.inj ((readBytes_ok hread).symm.trans (hall a ha))
  rfl

/-- The public list has a row for every distribution and one for the archive. -/
theorem publicRows_ok {T : Tree} {i : Opened} {archiveName : PyStr} {archive : Bytes}
    {rows : List (PyStr × PyStr)}
    {t u : Nat} (h : (publicRows C device T i archiveName).run t = (.ok rows, u))
    (harchive : T.find (releaseOutput.path ++ [archiveName]) = some archive)
    (hfiles : ∀ f ∈ i.distributions, T.find (releaseDistributions.path ++ [f.name])
      = some f.bytes) :
    rows.Perm ((archiveName, C.sha256 archive) :: i.distributions.map fun f =>
      (f.name, C.sha256 f.bytes)) := by
  obtain ⟨found, s, hfound, h⟩ := timed_bind_ok.mp h
  obtain ⟨data, s', hdata, h⟩ := timed_bind_ok.mp h
  obtain ⟨rfl, -⟩ := timed_pure_ok.mp h
  obtain rfl := Option.some.inj ((readBytes_ok hdata).symm.trans harchive)
  have heq := each_map (g := fun f : OpenedFile => (f.name, C.sha256 f.bytes))
    (fun f hf s v row hrow => by
    obtain ⟨content, _, hread, hrow⟩ := timed_bind_ok.mp hrow
    obtain ⟨rfl, -⟩ := timed_pure_ok.mp hrow
    obtain rfl := Option.some.inj ((readBytes_ok hread).symm.trans (hfiles f hf))
    rfl) hfound
  rw [heq]
  exact (List.perm_insertionSort _ _).trans List.perm_append_comm

/-! ## What is shipped -/

variable (P) in
/-- What a bundle is made of. -/
structure Contents where
  lock : Bytes
  locked : List (LockedRequirement P)
  /-- the project wheel, by file name and bytes -/
  project : PyStr × Bytes
  /-- the source archive -/
  source : PyStr × Bytes
  /-- the dependency wheels -/
  wheels : List (PyStr × Bytes)
  /-- both distributions -/
  distributions : List (PyStr × Bytes)

/-- The files of the archive beside the list of digests. -/
def Contents.assets (c : Contents P) : List (Path × Bytes) :=
  ([lit "distributions", c.project.1], c.project.2)
    :: c.wheels.map (fun wheel => ([lit "wheelhouse", wheel.1], wheel.2)) ++ [([lockAsset], c.lock)]

variable (A C) in
/-- The bundle holds these contents, and they are the ones that were checked. -/
structure Shipped (version platformLabel : PyStr) (r : Bundle) (c : Contents P) : Prop where
  accepted : lockedRequirements P c.lock = .ok c.locked
  lockedOnce : (c.locked.map (·.name)).Nodup
  /-- the wheels are the locked requirements, one to one, each with a digest that is locked -/
  wheels : ∃ rows, rows.Perm c.locked
    ∧ List.Forall₂ (fun wheel row => Satisfies A C wheel.1 wheel.2 row) c.wheels rows
  /-- both distributions are of one project, in the version that is released -/
  project : ∃ name v, P.version version = some v ∧ IsWheel P A c.project.1 c.project.2 (name, v)
    ∧ IsSource P A c.source.1 c.source.2 (name, v)
  distributions : c.project ∈ c.distributions ∧ c.source ∈ c.distributions
    ∧ c.distributions.length = 2
  /-- the entries are the list of digests and the assets, and the list has a row for each asset -/
  entries : ∃ listed manifest, listed.Perm c.assets
    ∧ r.entries = (([sumsName], manifest) :: listed).map
        (fun a => (archiveRoot version platformLabel ++ lit "/" ++ asPosix a.1, a.2))
    ∧ utf8Encode (sumsText (listed.map fun a => (asPosix a.1, C.sha256 a.2))) = some manifest
  archive : r.offlineArchive = archiveRoot version platformLabel ++ lit ".zip"
    ∧ r.files.find [r.offlineArchive] = some (A.zipped r.entries)
  /-- the public list has a row for the archive and for each distribution -/
  published : ∃ rows sums,
    rows.Perm ((r.offlineArchive, C.sha256 (A.zipped r.entries)) :: c.distributions.map fun d =>
      (d.1, C.sha256 d.2))
    ∧ utf8Encode (sumsText rows) = some sums ∧ r.files.find [sumsName] = some sums
    ∧ ∀ d ∈ c.distributions, r.files.find [lit "distributions", d.1] = some d.2

/-- The contents of a bundle that is made of these inputs. -/
def Opened.contents (i : Opened) (locked : List (LockedRequirement P)) : Contents P where
  lock := i.lock.bytes
  locked := locked
  project := (i.project.name, i.project.bytes)
  source := (i.source.name, i.source.bytes)
  wheels := i.wheels.map fun f => (f.name, f.bytes)
  distributions := i.distributions.map fun f => (f.name, f.bytes)

theorem contents_assets (i : Opened) (locked : List (LockedRequirement P)) :
    (i.contents locked).assets = assets i := by
  simp [Contents.assets, Opened.contents, assets, Function.comp_def]

/-- What is written is what was checked before it. -/
theorem writeBundle_ok {host : Host} {fuel : Nat} {version platformLabel : PyStr} {i : Opened}
    {t u : Nat} {r : Bundle}
    {locked : List (LockedRequirement P)}
    (h : (writeBundle A C host fuel version platformLabel i).run t = (.ok r, u)) (hi : i.By t)
    (haccepted : lockedRequirements P i.lock.bytes = .ok locked)
    (hwheels : ∃ rows, rows.Perm locked
      ∧ List.Forall₂ (fun f row => Satisfies A C f.name f.bytes row) i.wheels rows)
    (hproject : ∃ name v, P.version version = some v
      ∧ IsWheel P A i.project.name i.project.bytes (name, v)
      ∧ IsSource P A i.source.name i.source.bytes (name, v)) :
    Shipped A C version platformLabel r (i.contents locked) := by
  obtain ⟨existing, s₁, h₁, h⟩ := timed_bind_ok.mp h
  obtain ⟨_, s₂, h₂, h⟩ := timed_bind_ok.mp h
  obtain ⟨_, s₃, h₃, h⟩ := timed_bind_ok.mp h
  obtain ⟨T, s₄, hcopies, h⟩ := timed_bind_ok.mp h
  obtain ⟨manifest, s₅, hmanifest, h⟩ := timed_bind_ok.mp h
  obtain ⟨T₁, s₆, hwrite, h⟩ := timed_bind_ok.mp h
  obtain ⟨_, s₇, hcreate, h⟩ := timed_bind_ok.mp h
  obtain ⟨entries, s₈, hentries, h⟩ := timed_bind_ok.mp h
  obtain ⟨_, s₉, -, h⟩ := timed_bind_ok.mp h
  obtain ⟨rows, s₁₀, hrows, h⟩ := timed_bind_ok.mp h
  obtain ⟨sums, s₁₁, hsums, h⟩ := timed_bind_ok.mp h
  obtain ⟨T₂, s₁₂, hlast, h⟩ := timed_bind_ok.mp h
  obtain ⟨rfl, -⟩ := timed_pure_ok.mp h
  -- every pass that copies starts after the opening
  have hby := hi.mono (Nat.le_trans (Timed.le h₁) (Nat.le_trans (Timed.le h₂) (Timed.le h₃)))
  obtain ⟨hT, hassets, hpublic⟩ := copyInputs_ok hcopies hby
  have hlisted : ∀ a ∈ sortedAssets i, (offline.path ++ a.1, a.2) ∈ T := fun a ha =>
    hassets a ((sortedAssets_perm i).mem_iff.mp ha)
  obtain ⟨rfl, hT₁⟩ := writeBytes_ok hwrite hT
  -- the list of digests and the archive go over the same paths, and read the same files
  rw [← sortedAssets_paths] at hmanifest hentries
  have hcovered := manifestBytes_ok hmanifest fun a ha => find_of_mem hT (hlisted a ha)
  have hentries := archiveEntries_ok hentries (find_of_mem hT₁ List.mem_concat_self) fun a ha =>
    find_of_mem hT₁ (List.mem_append_left _ (hlisted a ha))
  have hT₂ :
    Tree.Distinct (_ ++ [(releaseOutput.path ++ [archiveRoot version platformLabel ++ lit ".zip"],
      A.zipped entries)]) := create_ok hcreate hT₁
  have hrows := publicRows_ok hrows (find_of_mem hT₂ List.mem_concat_self) fun f hf =>
    find_of_mem hT₂ (List.mem_append_left _ (List.mem_append_left _ (hpublic f hf)))
  obtain ⟨rfl, hT₃⟩ := writeBytes_ok hlast hT₂
  refine ⟨haccepted, lockedRequirements_nodup haccepted, ?_, hproject, ?_, ?_, ⟨rfl, ?_⟩, ?_⟩
  · obtain ⟨locks, hperm, hall⟩ := hwheels
    exact ⟨locks, hperm, List.forall₂_map_left_iff.mpr hall⟩
  · exact ⟨List.mem_map.mpr ⟨i.project, hi.project, rfl⟩,
      List.mem_map.mpr ⟨i.source, hi.source, rfl⟩,
      by rw [Opened.contents, List.length_map]; exact hi.two⟩
  · rw [contents_assets]
    exact ⟨sortedAssets i, manifest, sortedAssets_perm i, hentries, hcovered⟩
  · exact find_of_mem hT₃ (List.mem_append_left _ List.mem_concat_self)
  · refine ⟨rows, sums, ?_, (expect_ok.mp hsums).1, find_of_mem hT₃ List.mem_concat_self, ?_⟩
    · simpa [Opened.contents, Function.comp_def] using hrows
    · intro d hd
      obtain ⟨f, hf, rfl⟩ := List.mem_map.mp hd
      apply find_of_mem hT₃
      exact List.mem_append_left _ (List.mem_append_left _ (List.mem_append_left _ (hpublic f hf)))

/-- A run that succeeds ships the inputs that it has opened and checked, by their content at the
opening, whatever becomes of them meanwhile. -/
theorem bundle_shipped {host : Host} {fuel : Nat} {version platformLabel : PyStr} {t u : Nat}
    {r : Bundle}
    (h : (prepareReleaseBundle P A C host fuel version platformLabel).run t = (.ok r, u)) :
    ∃ i s, ∃ locked : List (LockedRequirement P), (openInputs host).run t = (.ok i, s)
      ∧ Shipped A C version platformLabel r (i.contents locked) := by
  obtain ⟨_, _, hsafe, h⟩ := timed_bind_ok.mp h
  obtain ⟨-, rfl⟩ := check_ok.mp hsafe
  obtain ⟨_, _, hsafe, h⟩ := timed_bind_ok.mp h
  obtain ⟨-, rfl⟩ := check_ok.mp hsafe
  obtain ⟨i, s, hopen, h⟩ := timed_bind_ok.mp h
  obtain ⟨locked, s', hcheck, h⟩ := timed_bind_ok.mp h
  have hi := openInputs_ok hopen
  obtain ⟨haccepted, hwheels, hproject⟩ := checkInputs_ok hcheck hi
  exact ⟨i, s, locked, hopen, writeBundle_ok h (hi.mono (Timed.le hcheck)) haccepted
    hwheels hproject⟩

/-! ## A release -/

def bytesOf (s : String) : Bytes := (utf8Encode (lit s)).getD []

/-- A file that stays as it is. -/
def stillFile (data : Bytes) : TimedFile where
  content _ := data
  metadata _ := ⟨1, data.length, data.length, 0, 0, 1, true⟩
  changes _ _ _ _ _ _ := rfl

def stillFolder (label : String) (files : List (PyStr × Bytes)) : Folder where
  path := lit label
  label := lit label
  isDirectory _ := .ok true
  listdir _ := .ok (files.map Prod.fst)
  openat name _ := ((files.lookup name).map stillFile).elim (.error (.os .missing)) .ok
  stat name t := ((files.lookup name).map fun data => (stillFile data).metadata t).elim
    (.error (.os .missing)) .ok

/-- The lock of one wheel. -/
def sampleLock : Bytes :=
  bytesOf "dep==1.0 \\\n    --hash=sha256:ef749f921f906e775e8c99edb6e589a37269296bb52a9835e846c0ed3334551b\n"

/-- SHA-256 of what the release hashes. -/
def sampleCrypto : Crypto :=
  .ofTables
    [(some (bytesOf "dep-1.0"), 0xef749f921f906e775e8c99edb6e589a37269296bb52a9835e846c0ed3334551b),
      (some (bytesOf "demo-2.0"),
        0x00e5205eb27efe7fb526f0c552dc7713d9458b6a980ff06d0865ed922bbd6a55),
      (some (bytesOf "demo-2.0 source"),
        0x6be49fb200582a3502a2e5752f8d83f04b2e49e1e6533f9bcfda3c9fa0a56d99),
      (some (bytesOf "PK"), 0xfcab7fcc2b4cffd9bb45003bfc2e468a04ef6f77ca8200a7341f027631584d25),
      (some sampleLock, 0x42a411b70b21dde30fc1b23d0807ad591314cf4a4ce938e3233651e32230bb0f)] []

theorem sampleCrypto_hex : sampleCrypto.Hex := Crypto.ofTables_hex _ _

def samplePackaging : Packaging where
  Version := PyStr
  versionEq := inferInstance
  version := some
  requirement text :=
    if text = lit "dep==1.0" then some ⟨lit "dep", none, [], none, [⟨lit "==", lit "1.0"⟩]⟩
      else none
  canonicalizeName name := name
  parseWheelFilename name :=
    if name = lit "dep-1.0-py3-none-any.whl" then some (lit "dep", lit "1.0")
    else if name = lit "demo-2.0-py3-none-any.whl" then some (lit "demo", lit "2.0")
    else none
  parseSdistFilename name := if name = lit "demo-2.0.tar.gz" then
    some (lit "demo", lit "2.0") else none

/-- Archives whose content is their name and version. -/
def sampleArchives : Archives where
  infolist := .done (.ok (some [⟨lit "sample.dist-info/METADATA", false, 8⟩]))
  readMember _ := .read 0 8 fun data => .done (.ok (some data))
  getmembers := .done (.ok (some [⟨lit "demo-2.0/PKG-INFO", true, 8⟩]))
  extractfile _ := .read 0 8 fun data => .done (.ok (some (some data)))
  getAll raw field :=
    if raw = bytesOf "dep-1.0" then if field = lit "Name" then [lit "dep"] else [lit "1.0"]
    else if field = lit "Name" then [lit "demo"] else [lit "2.0"]
  zipped _ := bytesOf "PK"

def sampleHost : Host where
  dist _ := .ok (stillFolder "dist"
    [(lit "demo-2.0.tar.gz", bytesOf "demo-2.0 source"),
      (lit "demo-2.0-py3-none-any.whl", bytesOf "demo-2.0")])
  wheelhouse _ := .ok (stillFolder "wheelhouse"
    [(lit "dep-1.0-py3-none-any.whl", bytesOf "dep-1.0")])
  lockFolder _ := .ok (stillFolder "locks" [(lit "governance.lock", sampleLock)])
  lockName := lit "governance.lock"
  outputPath := lit "release"
  output _ := .ok []
  device _ := .ok ()

theorem bundle_shipped_sample : ∃ r u i s, ∃ locked : List (LockedRequirement samplePackaging),
    (prepareReleaseBundle samplePackaging sampleArchives sampleCrypto sampleHost 2 (lit "2.0")
      (lit "linux")).run 0
      = (.ok r, u) ∧ (openInputs sampleHost).run 0 = (.ok i, s)
      ∧ Shipped sampleArchives sampleCrypto (lit "2.0") (lit "linux") r (i.contents locked) := by
  generalize hrun : (prepareReleaseBundle samplePackaging sampleArchives sampleCrypto sampleHost 2
    (lit "2.0")
    (lit "linux")).run 0 = run
  have hok : run.1.isOk = true := by
    rw [← hrun]
    decide +kernel
  obtain ⟨r, hr⟩ := exists_of_isOk hok
  obtain ⟨result, u⟩ := run
  obtain rfl : result = .ok r := hr
  obtain ⟨i, s, locked, hopen, hshipped⟩ := bundle_shipped hrun
  exact ⟨r, u, i, s, locked, rfl, hopen, hshipped⟩

end SddGov.Release
