import SddGov.Evidence.Package
import SddGov.Release.TimedFile
import SddGov.Release.GovernanceLock

/-!
# Release inputs

The input directories may change at any moment, so every file of them is opened once and
kept. A wheel is named by its file name and by its metadata, which must agree, and by
its digest; the three are passes of their own over the opened file. What reads wheel and source
archives is a reader that may look at any part of the file in any order.
`checkWheels_ok` says what the passes over the wheelhouse establish together.
-/

namespace SddGov.Release

open SddGov.Python SddGov.Python.Clock

variable {α β : Type}

/-! ## Input directories -/

/-- An opened directory that others may change: what each call on its descriptor answers at each
moment. -/
structure Folder where
  path : PyStr
  label : PyStr
  isDirectory : Nat → Except Exn Bool
  listdir : Nat → Except Exn (List PyStr)
  /-- `os.open(name, O_RDONLY | O_NOFOLLOW | …, dir_fd=…)` -/
  openat : PyStr → Nat → Except Exn TimedFile
  /-- `os.stat(name, dir_fd=…, follow_symlinks=False)` -/
  stat : PyStr → Nat → Except Exn Metadata

def isAlphanumeric (c : CodePoint) : Bool :=
  (0x30 ≤ c.val && c.val ≤ 0x39) || (0x41 ≤ c.val && c.val ≤ 0x5A) || (0x61 ≤ c.val && c.val ≤ 0x7A)

/-- `SAFE_NAME.fullmatch` -/
def safeName : PyStr → Bool
  | [] => false
  | c :: rest => isAlphanumeric c && rest.all fun d => isAlphanumeric d || (lit "._+-").contains d

/-- `_safe_direct_name` -/
def safeDirectName (name label : PyStr) : Timed Unit :=
  check (safeName name) (label ++ lit " has an unsafe filename: " ++ name)

/-- `_verify_directory` -/
def Folder.verifyDirectory (d : Folder) : Timed Unit := do
  let found ← call d.isDirectory
  check found (d.label ++ lit " is no longer a directory")

/-- The order of file names. -/
def sortNames (names : List PyStr) : List PyStr := names.insertionSort fun a b => strLe a b = true

/-- `names` -/
def Folder.names (d : Folder) : Timed (List PyStr) := do
  d.verifyDirectory
  let found ← call d.listdir
  let _ ← each (fun name => safeDirectName name (lit "entry in " ++ d.label)) (sortNames found)
  pure (sortNames found)

/-- `open_regular_file` -/
def Folder.openRegularFile (d : Folder) (label name : PyStr) : Timed OpenedFile := do
  safeDirectName name label
  d.verifyDirectory
  let file ← call (d.openat name)
  let opening ← sample fun t => (t, file.metadata t)
  check (opening.2.isRegular && opening.2.nlink == 1)
    (label ++ lit " must be a single-linked regular file: " ++ d.path ++ lit "/" ++ name)
  pure ⟨d.path ++ lit "/" ++ name, name, label, file, d.stat name, opening.1⟩

/-- The files of a directory, sorted by name. -/
def Folder.openAll (d : Folder) (label : PyStr) : Timed (List OpenedFile) := do
  let names ← d.names
  let files ← each (d.openRegularFile label) names
  pure (files.insertionSort fun a b => strLe a.name b.name = true)

/-- A file is opened before it has been read. -/
theorem openRegularFile_opened {d : Folder} {label name : PyStr} {t u : Nat} {f : OpenedFile}
    (h : (d.openRegularFile label name).run t = (.ok f, u)) : f.opened ≤ u := by
  obtain ⟨_, _, -, h⟩ := timed_bind_ok.mp h
  obtain ⟨_, _, -, h⟩ := timed_bind_ok.mp h
  obtain ⟨file, _, -, h⟩ := timed_bind_ok.mp h
  obtain ⟨opening, s, hopening, h⟩ := timed_bind_ok.mp h
  obtain ⟨rfl, rfl⟩ := sample_ok.mp hopening
  obtain ⟨_, _, hcheck, h⟩ := timed_bind_ok.mp h
  obtain ⟨-, rfl⟩ := check_ok.mp hcheck
  obtain ⟨rfl, rfl⟩ := timed_pure_ok.mp h
  exact Nat.le_succ _

theorem openAll_opened {d : Folder} {label : PyStr} {t u : Nat} {files : List OpenedFile}
    (h : (d.openAll label).run t = (.ok files, u)) : ∀ f ∈ files, f.opened ≤ u := by
  obtain ⟨names, _, -, h⟩ := timed_bind_ok.mp h
  obtain ⟨found, s, hfound, h⟩ := timed_bind_ok.mp h
  obtain ⟨rfl, rfl⟩ := timed_pure_ok.mp h
  intro f hf
  -- sorting by name leaves the files that were opened
  have hmem : f ∈ found := (List.mem_insertionSort _).mp hf
  obtain ⟨name, s', v, hv, hrun⟩ := each_round hfound f hmem
  exact Nat.le_trans (openRegularFile_opened hrun) hv

/-! ## Archives -/

/-- A reader of an archive: it seeks and reads as it likes, and ends with what it has found. -/
inductive Reader (α : Type)
  | done (r : Except Exn α)
  | read (offset size : Nat) (next : Bytes → Reader α)

def OpenedFile.follow (f : OpenedFile) : Reader α → Timed α
  | .done r => ofExcept r
  | .read offset size next => do
    let data ← f.readAt offset size
    f.follow (next data)

/-- What a reader finds in bytes that stay. -/
def Reader.on (data : Bytes) : Reader α → Except Exn α
  | .done r => r
  | .read offset size next => (next ((data.drop offset).take size)).on data

/-- A reader of a content that stays finds what is in it. -/
theorem follow_fixed {f : OpenedFile} {c : Bytes} {r : Reader α} {t u : Nat} {a : α}
    (h : (f.follow r).run t = (.ok a, u)) (hc : ∀ j, t ≤ j → j ≤ u → f.file.content j = c) :
    r.on c = .ok a := by
  induction r generalizing t with
  | done r => exact (ofExcept_ok.mp h).1
  | read offset size next ih =>
    have hforward := Timed.le h
    obtain ⟨data, s, hdata, h⟩ := timed_bind_ok.mp h
    obtain ⟨rfl, rfl⟩ := sample_ok.mp hdata
    rw [hc t (Nat.le_refl t) hforward] at h
    exact ih _ h fun j hj hu => hc j (by omega) hu

/-- `with self.binary_stream() as handle` -/
def OpenedFile.binaryStream (f : OpenedFile) (body : Timed α) : Timed α := do
  f.verifyUnchanged
  ensuring body f.verifyUnchanged

/-- A stream that ends with a result was read while the content was that of the opening. -/
theorem binaryStream_ok {f : OpenedFile} {body : Timed α} {t u : Nat} {a : α}
    (h : (f.binaryStream body).run t = (.ok a, u)) (hopened : f.opened ≤ t) :
    ∃ s v, body.run s = (.ok a, v) ∧ ∀ j, s ≤ j → j ≤ v → f.file.content j = f.bytes := by
  obtain ⟨_, s, hbefore, h⟩ := timed_bind_ok.mp h
  obtain ⟨v, hbody, hafter⟩ := ensuring_ok h
  have hstart := Timed.le hbefore
  refine ⟨s, v, hbody, fun j hj hv => ?_⟩
  exact OpenedFile.content_eq (verifyUnchanged_ok hafter) (by omega) hv

/-- `zipfile.ZipInfo` -/
structure ZipMember where
  filename : PyStr
  isDir : Bool
  fileSize : Nat

/-- `tarfile.TarInfo` -/
structure TarMember where
  name : PyStr
  isReg : Bool
  size : Nat

/-- `zipfile`, `tarfile` and `email`; a reader's `none` is `BadZipFile` or `TarError`. -/
structure Archives where
  /-- `ZipFile(handle).infolist()` -/
  infolist : Reader (Option (List ZipMember))
  /-- `ZipFile(handle).read(member)` -/
  readMember : ZipMember → Reader (Option Bytes)
  /-- `tarfile.open(fileobj=handle, mode="r:gz").getmembers()` -/
  getmembers : Reader (Option (List TarMember))
  /-- the bytes of `extractfile(member)`, if there are any -/
  extractfile : TarMember → Reader (Option (Option Bytes))
  /-- `BytesParser(policy=compat32).parsebytes(raw).get_all(field, [])` -/
  getAll : (raw : Bytes) → (field : PyStr) → List PyStr
  /-- the file that a `ZipFile` writes for these entries, at a fixed date, with fixed attributes -/
  zipped : List (PyStr × Bytes) → Bytes

/-- `PurePosixPath(path).parts` -/
def posixParts (path : PyStr) : List PyStr :=
  if path.head? = some (cp 0x2F) then lit "/" :: Autonomy.pathParts path
    else Autonomy.pathParts path

variable (P : Packaging) (A : Archives)

/-- `_metadata_identity` -/
def metadataIdentity (raw : Bytes) (label : PyStr) : Timed (PyStr × P.Version) :=
  match A.getAll raw (lit "Name"), A.getAll raw (lit "Version") with
  | [name], [version] => do
    let version ← expect (P.version version) (label ++ lit " metadata contains an invalid version")
    pure (P.canonicalizeName name, version)
  | _, _ => raise (.value (label ++ lit " metadata must declare one Name and Version"))

def isWheelMetadata (member : ZipMember) : Bool :=
  !member.isDir && (posixParts member.filename).length == 2
    && (lit ".dist-info").isSuffixOf ((posixParts member.filename).headD [])
    && Evidence.nameOf member.filename == lit "METADATA"

/-- The name and version in the metadata of a wheel. -/
def wheelMetadata (f : OpenedFile) (label : PyStr) : Timed (PyStr × P.Version) := do
  let members ← f.follow A.infolist
  let members ← expect members (label ++ lit " is not a valid wheel archive")
  match members.filter isWheelMetadata with
  | [member] => do
    check (member.fileSize ≤ 1024 * 1024) (label ++ lit " must contain one bounded METADATA file")
    let raw ← f.follow (A.readMember member)
    let raw ← expect raw (label ++ lit " is not a valid wheel archive")
    metadataIdentity P A raw label
  | _ => raise (.value (label ++ lit " must contain one bounded METADATA file"))

/-- `_wheel_identity` -/
def wheelIdentity (f : OpenedFile) (label : PyStr) : Timed (PyStr × P.Version) := do
  let identity ← expect (P.parseWheelFilename f.name)
    (label ++ lit " has an invalid wheel filename")
  let metadata ← f.binaryStream (wheelMetadata P A f label)
  check (metadata.1 == identity.1 && metadata.2 == identity.2)
    (label ++ lit " filename and metadata name/version do not match")
  pure identity

def isSourceMetadata (member : TarMember) : Bool :=
  (posixParts member.name).length == 2 && Evidence.nameOf member.name == lit "PKG-INFO"

/-- The name and version in the metadata of a source archive. -/
def sourceMetadata (f : OpenedFile) : Timed (PyStr × P.Version) := do
  let members ← f.follow A.getmembers
  let members ← expect members (lit "source archive is not a valid tar archive")
  match members.filter isSourceMetadata with
  | [member] => do
    check (member.isReg && member.size ≤ 1024 * 1024)
      (lit "source archive must contain one bounded PKG-INFO file")
    let extracted ← f.follow (A.extractfile member)
    let extracted ← expect extracted (lit "source archive is not a valid tar archive")
    let raw ← expect extracted (lit "source archive PKG-INFO is unavailable")
    metadataIdentity P A raw (lit "source archive")
  | _ => raise (.value (lit "source archive must contain one bounded PKG-INFO file"))

/-- `_sdist_identity` -/
def sdistIdentity (f : OpenedFile) : Timed (PyStr × P.Version) := do
  let identity ← expect (P.parseSdistFilename f.name) (lit "source archive has an invalid filename")
  let metadata ← f.binaryStream (sourceMetadata P A f)
  check (metadata.1 == identity.1 && metadata.2 == identity.2)
    (lit "source archive filename and metadata name/version do not match")
  pure identity

/-! ## What archives declare -/

/-- The metadata has one name and one version, and they are these. -/
def Declares (raw : Bytes) (identity : PyStr × P.Version) : Prop :=
  ∃ name version, A.getAll raw (lit "Name") = [name] ∧ A.getAll raw (lit "Version") = [version]
    ∧ P.canonicalizeName name = identity.1 ∧ P.version version = some identity.2

/-- A file with this name and these bytes is a wheel of this project and version: its file name says
so, and the one METADATA that a reader of these bytes finds. -/
def IsWheel (name : PyStr) (data : Bytes) (identity : PyStr × P.Version) : Prop :=
  P.parseWheelFilename name = some identity
    ∧ ∃ members member raw, A.infolist.on data = .ok (some members)
      ∧ members.filter isWheelMetadata = [member]
      ∧ (A.readMember member).on data = .ok (some raw) ∧ Declares P A raw identity

/-- The same of a source archive and its PKG-INFO. -/
def IsSource (name : PyStr) (data : Bytes) (identity : PyStr × P.Version) : Prop :=
  P.parseSdistFilename name = some identity
    ∧ ∃ members member raw, A.getmembers.on data = .ok (some members)
      ∧ members.filter isSourceMetadata = [member]
      ∧ (A.extractfile member).on data = .ok (some (some raw)) ∧ Declares P A raw identity

variable {P A}

theorem metadataIdentity_ok {raw : Bytes} {label : PyStr} {t u : Nat} {identity : PyStr × P.Version}
    (h : (metadataIdentity P A raw label).run t = (.ok identity, u)) :
    Declares P A raw identity := by
  unfold metadataIdentity at h
  split at h
  · next name version hname hversion =>
    obtain ⟨found, _, hfound, h⟩ := timed_bind_ok.mp h
    obtain ⟨rfl, -⟩ := timed_pure_ok.mp h
    exact ⟨name, version, hname, hversion, rfl, (expect_ok.mp hfound).1⟩
  · exact absurd h raise_ok

/-- A wheel that passes is the one that its file name and its content at the opening say. -/
theorem wheelIdentity_ok {f : OpenedFile} {label : PyStr} {t u : Nat} {identity : PyStr × P.Version}
    (h : (wheelIdentity P A f label).run t = (.ok identity, u)) (hopened : f.opened ≤ t) :
    IsWheel P A f.name f.bytes identity := by
  obtain ⟨found, _, hfound, h⟩ := timed_bind_ok.mp h
  obtain ⟨hname, rfl⟩ := expect_ok.mp hfound
  obtain ⟨metadata, _, hstream, h⟩ := timed_bind_ok.mp h
  obtain ⟨_, _, hsame, h⟩ := timed_bind_ok.mp h
  obtain ⟨rfl, -⟩ := timed_pure_ok.mp h
  obtain ⟨hsame, -⟩ := check_ok.mp hsame
  rw [Bool.and_eq_true, beq_iff_eq, beq_iff_eq] at hsame
  obtain rfl : metadata = found := Prod.ext hsame.1 hsame.2
  obtain ⟨s, v, hbody, hfixed⟩ := binaryStream_ok hstream hopened
  refine ⟨hname, ?_⟩
  obtain ⟨listed, s₁, hlisted, hbody⟩ := timed_bind_ok.mp hbody
  obtain ⟨members, _, hmembers, hbody⟩ := timed_bind_ok.mp hbody
  obtain ⟨rfl, rfl⟩ := expect_ok.mp hmembers
  split at hbody
  · next member hone =>
    obtain ⟨_, _, hbounded, hbody⟩ := timed_bind_ok.mp hbody
    obtain ⟨-, rfl⟩ := check_ok.mp hbounded
    obtain ⟨read, s₂, hread, hbody⟩ := timed_bind_ok.mp hbody
    obtain ⟨raw, _, hraw, hbody⟩ := timed_bind_ok.mp hbody
    obtain ⟨rfl, rfl⟩ := expect_ok.mp hraw
    have h₁ := Timed.le hlisted
    have h₂ := Timed.le hread
    have h₃ := Timed.le hbody
    refine ⟨members, member, raw, follow_fixed hlisted fun j hj hu => hfixed j hj (by omega), hone,
      follow_fixed hread fun j hj hu => hfixed j (by omega) (by omega), metadataIdentity_ok hbody⟩
  · exact absurd hbody raise_ok

/-- The same of a source archive. -/
theorem sdistIdentity_ok {f : OpenedFile} {t u : Nat} {identity : PyStr × P.Version}
    (h : (sdistIdentity P A f).run t = (.ok identity, u)) (hopened : f.opened ≤ t) :
    IsSource P A f.name f.bytes identity := by
  obtain ⟨found, _, hfound, h⟩ := timed_bind_ok.mp h
  obtain ⟨hname, rfl⟩ := expect_ok.mp hfound
  obtain ⟨metadata, _, hstream, h⟩ := timed_bind_ok.mp h
  obtain ⟨_, _, hsame, h⟩ := timed_bind_ok.mp h
  obtain ⟨rfl, -⟩ := timed_pure_ok.mp h
  obtain ⟨hsame, -⟩ := check_ok.mp hsame
  rw [Bool.and_eq_true, beq_iff_eq, beq_iff_eq] at hsame
  obtain rfl : metadata = found := Prod.ext hsame.1 hsame.2
  obtain ⟨s, v, hbody, hfixed⟩ := binaryStream_ok hstream hopened
  refine ⟨hname, ?_⟩
  obtain ⟨listed, s₁, hlisted, hbody⟩ := timed_bind_ok.mp hbody
  obtain ⟨members, _, hmembers, hbody⟩ := timed_bind_ok.mp hbody
  obtain ⟨rfl, rfl⟩ := expect_ok.mp hmembers
  split at hbody
  · next member hone =>
    obtain ⟨_, _, hbounded, hbody⟩ := timed_bind_ok.mp hbody
    obtain ⟨-, rfl⟩ := check_ok.mp hbounded
    obtain ⟨read, s₂, hread, hbody⟩ := timed_bind_ok.mp hbody
    obtain ⟨extracted, _, hextracted, hbody⟩ := timed_bind_ok.mp hbody
    obtain ⟨rfl, rfl⟩ := expect_ok.mp hextracted
    obtain ⟨raw, _, hraw, hbody⟩ := timed_bind_ok.mp hbody
    obtain ⟨rfl, rfl⟩ := expect_ok.mp hraw
    have h₁ := Timed.le hlisted
    have h₂ := Timed.le hread
    have h₃ := Timed.le hbody
    refine ⟨members, member, raw, follow_fixed hlisted fun j hj hu => hfixed j hj (by omega), hone,
      follow_fixed hread fun j hj hu => hfixed j (by omega) (by omega), metadataIdentity_ok hbody⟩
  · exact absurd hbody raise_ok

/-! ## The wheelhouse -/

variable (P A) in
/-- The wheels, each against its row of the lock; `seen` are the names of those before. -/
def checkWheels (C : Crypto) (fuel : Nat) (locked : List (LockedRequirement P)) :
    List PyStr → List OpenedFile → Timed (List PyStr)
  | seen, [] => pure seen
  | seen, dependency :: rest => do
    let identity ← wheelIdentity P A dependency (lit "dependency wheel")
    check (identity.1 ∉ seen) (lit "wheelhouse contains duplicate dependency packages")
    let row ← expect (locked.find? fun row => row.name == identity.1)
      (lit "dependency wheel is not an exact locked requirement")
    check (identity.2 == row.version) (lit "dependency wheel is not an exact locked requirement")
    let data ← dependency.pass fuel
    check (C.sha256 data ∈ row.hashes)
      (lit "dependency wheel digest is absent from the locked hashes")
    checkWheels C fuel locked (seen ++ [identity.1]) rest

variable (A) in
/-- The wheel, by its file name and its bytes, is what the row locks. -/
def Satisfies (C : Crypto) (name : PyStr) (data : Bytes) (row : LockedRequirement P) : Prop :=
  IsWheel P A name data (row.name, row.version) ∧ C.sha256 data ∈ row.hashes

/-- Each wheel has a row of its own that it satisfies with its content at the opening. -/
theorem checkWheels_ok {C : Crypto} {fuel : Nat} {locked : List (LockedRequirement P)}
    {wheels : List OpenedFile} :
    ∀ {seen names : List PyStr} {t u : Nat}, (checkWheels P A C fuel locked seen wheels).run t
    = (.ok names, u) →
      (∀ f ∈ wheels, f.opened ≤ t) → seen.Nodup →
      ∃ rows, List.Forall₂ (fun f row => Satisfies A C f.name f.bytes row) wheels rows
        ∧ rows ⊆ locked ∧ names = seen ++ rows.map (·.name) ∧ names.Nodup := by
  induction wheels with
  | nil =>
    intro seen names t u h _ hseen
    obtain ⟨rfl, -⟩ := timed_pure_ok.mp h
    exact ⟨[], .nil, by simp, by simp, hseen⟩
  | cons f rest ih =>
    intro seen names t u h hopened hseen
    obtain ⟨identity, s, hidentity, h⟩ := timed_bind_ok.mp h
    obtain ⟨_, _, hrun, h⟩ := timed_bind_ok.mp h
    obtain ⟨hfresh, rfl⟩ := check_ok.mp hrun
    obtain ⟨row, _, hrun, h⟩ := timed_bind_ok.mp h
    obtain ⟨hrow, rfl⟩ := expect_ok.mp hrun
    obtain ⟨_, _, hrun, h⟩ := timed_bind_ok.mp h
    obtain ⟨hversion, rfl⟩ := check_ok.mp hrun
    obtain ⟨data, v, hdata, h⟩ := timed_bind_ok.mp h
    obtain ⟨_, _, hrun, h⟩ := timed_bind_ok.mp h
    obtain ⟨hdigest, rfl⟩ := check_ok.mp hrun
    have hstart := Timed.le hidentity
    have hpassed := Timed.le hdata
    -- the digest is of the content at the opening, whenever the pass ran
    have hbytes := pass_ok hdata (Nat.le_trans (hopened f List.mem_cons_self) hstart)
    have hname : row.name = identity.1 := by simpa using List.find?_some hrow
    have hsame : identity.2 = row.version := by simpa using hversion
    have hfound := wheelIdentity_ok hidentity (hopened f List.mem_cons_self)
    have hnew : identity.1 ∉ seen := by simpa using hfresh
    have hnames : (seen ++ [identity.1]).Nodup := by
      rw [List.nodup_append]
      refine ⟨hseen, by simp, ?_⟩
      intro a ha b hb hab
      obtain rfl := List.mem_singleton.mp hb
      exact hnew (hab ▸ ha)
    have hlater : ∀ g ∈ rest, g.opened ≤ v := by
      intro g hg
      have hle := hopened g (List.mem_cons_of_mem f hg)
      omega
    obtain ⟨rows, hrows, hsub, hall, hnodup⟩ := ih h hlater hnames
    refine ⟨row :: rows, .cons ⟨?_, ?_⟩ hrows, ?_, ?_, hnodup⟩
    · rw [hname, ← hsame]
      exact hfound
    · rw [← hbytes]
      simpa using hdigest
    · exact List.cons_subset.mpr ⟨List.mem_of_find?_eq_some hrow, hsub⟩
    · rw [hall, List.map_cons, hname, List.append_assoc]
      rfl

/-- Wheels that cover the lock are its rows, one to one. -/
theorem rows_perm {locked rows : List (LockedRequirement P)} (hlocked : (locked.map (·.name)).Nodup)
    (hrows : (rows.map (·.name)).Nodup) (hsub : rows ⊆ locked)
    (hcover : ∀ row ∈ locked, row.name ∈ rows.map (·.name)) : rows.Perm locked := by
  apply (List.perm_ext_iff_of_nodup (List.Nodup.of_map _ hrows) (List.Nodup.of_map _ hlocked)).mpr
  intro row
  refine ⟨fun h => hsub h, ?_⟩
  intro hrow
  obtain ⟨row', hrow', hname⟩ := List.mem_map.mp (hcover row hrow)
  rwa [← List.inj_on_of_nodup_map hlocked (hsub hrow') hrow hname]

end SddGov.Release
