import SddGov.Evidence.Names
import SddGov.Owner.OwnerCard
import SddGov.Release.Bundle

/-!
# Release assets

`verify_release_assets` reads the public list of digests of a release that has been
downloaded and compares it with the files that are there. What it accepts is
covered exactly by the list (`assets_exact`), so two releases that are accepted with one list
have the same assets by name and digest (`assets_agree`); and it accepts every release as
`prepare_release_bundle` has written it (`shipped_accepted`).
-/

namespace SddGov.Release

open SddGov.Python SddGov.Python.Clock SddGov.Owner

/-! ## A directory that stays -/

/-- What is at a path. -/
inductive Node
  | file (content : Bytes) (links : Nat)
  | directory
  | symlink
  | special   -- opens, and is no regular file
  deriving DecidableEq

/-- A release that has been downloaded, which nobody writes to. -/
structure Download where
  /-- the path of its root -/
  root : PyStr
  entries : List (Path × Node)

/-- What is at a path below the root, links not followed. -/
def Download.find (D : Download) (path : Path) : Option Node :=
  (D.entries.find? fun e => e.1 == path).map Prod.snd

/-- The last part of a path in this very directory. -/
def entryOf (directory path : Path) : Option PyStr :=
  if path.dropLast = directory then path.getLast? else none

/-- `os.listdir`, sorted. -/
def Download.names (D : Download) (directory : Path) : List PyStr :=
  sortedSet (D.entries.filterMap fun e => entryOf directory e.1)

/-- `OpenedDirectory.open_directory`, which takes neither a link nor a file. -/
def Download.isDirectory (D : Download) (directory : Path) :
    Bool := D.find directory == some .directory

/-- `OpenedDirectory.names` -/
def directoryNames (D : Download) (directory : Path) (label : PyStr) : Except Exn (List PyStr) :=
  match (D.names directory).find? fun name => !safeName name with
  | some name =>
      .error (.value (lit "entry in " ++ label ++ lit " has an unsafe filename: " ++ name))
  | none => .ok (D.names directory)

/-- `OpenedDirectory.open_regular_file`, and the bytes of the file -/
def readRegular (D : Download) (path : Path) (label : PyStr) : Except Exn Bytes :=
  let linked := Exn.value (label ++ lit " must be a single-linked regular file: "
    ++ D.root ++ lit "/"
    ++ asPosix path)
  match D.find path with
  | none => .error (.os .missing)
  | some .symlink => .error (.os .other)
  | some .directory => .error linked
  | some .special => .error linked
  | some (.file content links) => if links = 1 then .ok content else .error linked

/-- The bytes of a regular file with one link. -/
def Download.regular (D : Download) (path : Path) : Option Bytes :=
  match D.find path with
  | some (.file content 1) => some content
  | _ => none

/-! ## The list -/

/-- `bytes.decode("ascii")` -/
def asciiDecode (raw : Bytes) : Option PyStr :=
  if raw.all fun b => b.val < 0x80 then some (raw.map fun b => cp b.val) else none

/-- `MANIFEST_ROW.fullmatch`: the digest and the name. -/
def manifestRow (row : PyStr) : Option (PyStr × PyStr) :=
  let digest := row.take 64
  let name := row.drop 66
  if isSha256 digest && (row.drop 64).take 2 == lit "  " && !name.isEmpty
      && name.all fun c => c.val != 0x0D && c.val != 0x0A then
    some (digest, name)
  else none

/-- `expected`: the names with their digests, in the order of the list. -/
def expectedAssets : List (PyStr × PyStr) → List PyStr → Except Exn (List (PyStr × PyStr))
  | expected, [] => .ok expected
  | expected, row :: rows =>
    match manifestRow row with
    | none => .error (valueError "public release manifest has an invalid row")
    | some (digest, name) =>
      if !safeName name then .error (valueError "public release manifest has an unsafe asset name")
      else if name ∈ expected.map Prod.fst then
        .error (valueError "public release manifest has a duplicate asset")
      else expectedAssets (expected ++ [(name, digest)]) rows

def maxPublicManifestBytes : Nat := 64 * 1024

/-- The list that was read. -/
def publicManifest (raw : Bytes) : Except Exn (List (PyStr × PyStr)) := do
  require (raw.length ≤ maxPublicManifestBytes) "public release manifest exceeds the size limit"
  match asciiDecode raw with
  | none => .error (valueError "public release manifest must be ASCII")
  | some text => do
    require (!(splitLines text).isEmpty) "public release manifest is empty"
    expectedAssets [] (splitLines text)

/-! ## The verifier -/

def distributionsPath : Path := [lit "distributions"]

/-- What the root of a release may hold beside the assets. -/
def besideAssets : List PyStr := [sumsName, lit "distributions", lit "offline"]

variable (C : Crypto)

/-- The loop over the digests. -/
def checkDigests (D : Download) (distributions : List PyStr) :
    List (PyStr × PyStr) → Except Exn Unit
  | [] => .ok ()
  | (name, digest) :: rest => do
    let data ← readRegular D (if name ∈ distributions then distributionsPath ++ [name] else [name])
      (lit "downloaded public release asset")
    require (C.sha256 data == digest) "downloaded public release asset digest mismatch"
    checkDigests D distributions rest

/-- `verify_release_assets`: the names of the assets. -/
def verifyReleaseAssets (D : Download) : Except Exn (List PyStr) := do
  let raw ← readRegular D [sumsName] (lit "public release manifest")
  let expected ← publicManifest raw
  if !D.isDirectory distributionsPath then
    .error (.os (if (D.find distributionsPath).isNone then .missing else .other))
  else do
    let distributions ← directoryNames D distributionsPath (lit "downloaded release distributions")
    let names ← directoryNames D [] (lit "downloaded release root")
    let root := names.filter fun name => name ∉ besideAssets
    require (distributions.all fun name => name ∉ root)
      "downloaded release assets have ambiguous duplicate names"
    require ((expected.map Prod.fst).all (fun name => name ∈ distributions ++ root)
        && (distributions ++ root).all fun name => name ∈ expected.map Prod.fst)
      "public release manifest does not exactly cover downloaded assets"
    checkDigests C D distributions expected
    pure (sortedSet (expected.map Prod.fst))

variable {C}

/-! ## What is accepted -/

/-- Where an asset is. -/
def assetPath (D : Download) (name : PyStr) : Path :=
  if name ∈ D.names distributionsPath then distributionsPath ++ [name] else [name]

/-- A release that the list covers exactly; the list and the assets are regular files with one
link. -/
structure Covered (C : Crypto) (D : Download) (assets : List (PyStr × PyStr)) : Prop where
  there : D.isDirectory distributionsPath = true
  listed : ∃ raw, D.regular [sumsName] = some raw ∧ publicManifest raw = .ok assets
  once : (assets.map Prod.fst).Nodup
  safe : ∀ asset ∈ assets, safeName asset.1 = true
  /-- no asset of the distributions has the name of one at the root -/
  apart : ∀ name ∈ D.names distributionsPath, name ∈ D.names [] → name ∈ besideAssets
  names : ∀ name, name ∈ assets.map Prod.fst
    ↔ name ∈ D.names distributionsPath ∨ name ∈ D.names [] ∧ name ∉ besideAssets
  digests : ∀ asset ∈ assets, ∃ data,
    D.regular (assetPath D asset.1) = some data ∧ C.sha256 data = asset.2

/-- What is read is a regular file. -/
theorem readRegular_ok {D : Download} {path : Path} {label : PyStr} {data : Bytes} :
    readRegular D path label = .ok data ↔ D.regular path = some data := by
  unfold readRegular Download.regular
  cases D.find path with
  | none => simp
  | some node =>
    cases node with
    | file content links =>
      by_cases hlinks : links = 1
      · simp [hlinks]
      · simp [hlinks]
    | _ => simp

/-- The names in a directory, all of them safe. -/
theorem directoryNames_ok {D : Download} {directory : Path} {label : PyStr} {names : List PyStr} :
    directoryNames D directory label = .ok names
      ↔ names = D.names directory ∧ ∀ name ∈ D.names directory, safeName name = true := by
  unfold directoryNames
  constructor
  · intro h
    split at h
    · simp at h
    · next hnone =>
      obtain rfl := Except.ok.inj h
      exact ⟨rfl, fun name hname => by simpa using List.find?_eq_none.mp hnone name hname⟩
  · rintro ⟨rfl, hsafe⟩
    rw [List.find?_eq_none.mpr fun name hname => by simp [hsafe name hname]]

/-- The names of a list are safe and all different. -/
theorem expectedAssets_ok {rows : List PyStr} : ∀ {expected assets : List (PyStr × PyStr)},
    expectedAssets expected rows = .ok assets → (expected.map Prod.fst).Nodup →
      (∀ asset ∈ expected, safeName asset.1 = true) →
      (assets.map Prod.fst).Nodup ∧ ∀ asset ∈ assets, safeName asset.1 = true := by
  induction rows with
  | nil =>
    intro expected assets h hnodup hsafe
    obtain rfl := Except.ok.inj h
    exact ⟨hnodup, hsafe⟩
  | cons row rows ih =>
    intro expected assets h hnodup hsafe
    unfold expectedAssets at h
    split at h
    · simp at h
    · next digest name _ =>
      split at h
      · simp at h
      · next hname =>
        split at h
        · simp at h
        · next hfresh =>
          refine ih h ?_ ?_
          · rw [List.map_append, List.map_cons, List.map_nil, List.nodup_append]
            refine ⟨hnodup, by simp, ?_⟩
            intro p hp q hq hpq
            obtain rfl : q = name := by simpa using hq
            exact hfresh (hpq ▸ hp)
          · intro asset hasset
            rcases List.mem_append.mp hasset with hasset | hasset
            · exact hsafe asset hasset
            · obtain rfl := List.mem_singleton.mp hasset
              simpa using hname

theorem publicManifest_ok {raw : Bytes} {assets : List (PyStr × PyStr)}
    (h : publicManifest raw = .ok assets) :
    (assets.map Prod.fst).Nodup ∧ ∀ asset ∈ assets, safeName asset.1 = true := by
  obtain ⟨_, -, h⟩ := except_bind_ok.mp h
  split at h
  · simp at h
  · obtain ⟨_, -, h⟩ := except_bind_ok.mp h
    exact expectedAssets_ok h (by simp) (by simp)

/-- Every expected asset is a regular file in its place, with the expected digest. -/
theorem checkDigests_ok {D : Download} {distributions : List PyStr}
    {expected : List (PyStr × PyStr)} {u : Unit} :
    checkDigests C D distributions expected = .ok u
      ↔ ∀ asset ∈ expected, ∃ data,
          D.regular (if asset.1 ∈ distributions then distributionsPath ++ [asset.1] else [asset.1])
          = some data
            ∧ C.sha256 data = asset.2 := by
  induction expected with
  | nil => simp [checkDigests]
  | cons asset rest ih =>
    obtain ⟨name, digest⟩ := asset
    rw [List.forall_mem_cons, ← ih]
    constructor
    · intro h
      obtain ⟨data, hread, h⟩ := except_bind_ok.mp h
      obtain ⟨_, hdigest, h⟩ := except_bind_ok.mp h
      exact ⟨⟨data, readRegular_ok.mp hread, by simpa using require_ok.mp hdigest⟩, h⟩
    · rintro ⟨⟨data, hread, hdigest⟩, h⟩
      exact except_bind_ok.mpr ⟨data, readRegular_ok.mpr hread,
        except_bind_ok.mpr ⟨(), by simpa using hdigest, h⟩⟩

/-- Exactly the releases that their list covers are accepted, with the names on it. -/
theorem assets_exact {D : Download} {names : List PyStr} :
    verifyReleaseAssets C D = .ok names
      ↔ ∃ assets, Covered C D assets ∧ names = sortedSet (assets.map Prod.fst) := by
  constructor
  · intro h
    obtain ⟨raw, hraw, h⟩ := except_bind_ok.mp h
    obtain ⟨assets, hassets, h⟩ := except_bind_ok.mp h
    split at h
    · simp at h
    · next hthere =>
      obtain ⟨distributions, hdistributions, h⟩ := except_bind_ok.mp h
      obtain ⟨found, hfound, h⟩ := except_bind_ok.mp h
      obtain ⟨rfl, -⟩ := directoryNames_ok.mp hdistributions
      obtain ⟨rfl, -⟩ := directoryNames_ok.mp hfound
      obtain ⟨_, happart, h⟩ := except_bind_ok.mp h
      obtain ⟨_, hcover, h⟩ := except_bind_ok.mp h
      obtain ⟨_, hdigests, h⟩ := except_bind_ok.mp h
      obtain rfl := Except.ok.inj h
      have happart := List.all_eq_true.mp (require_ok.mp happart)
      obtain ⟨hlisted, hthere'⟩ := Bool.and_eq_true_iff.mp (require_ok.mp hcover)
      have hlisted := List.all_eq_true.mp hlisted
      have hthere' := List.all_eq_true.mp hthere'
      obtain ⟨hnodup, hsafe⟩ := publicManifest_ok hassets
      refine ⟨assets,
        ⟨by simpa using hthere, ⟨raw, readRegular_ok.mp hraw, hassets⟩, hnodup, hsafe, ?_, ?_, ?_⟩,
        rfl⟩
      · intro name hname hroot
        have hnot := happart name hname
        simp only [List.mem_filter, decide_eq_true_eq, not_and, not_not] at hnot
        simpa using hnot hroot
      · intro name
        constructor
        · intro hname
          have hin := hlisted name hname
          simpa only [List.mem_append, List.mem_filter, decide_eq_true_eq] using hin
        · intro hname
          have hin := hthere' name (by
            simpa only [List.mem_append, List.mem_filter, decide_eq_true_eq] using hname)
          simpa using hin
      · exact checkDigests_ok.mp hdigests
  · rintro ⟨assets, hcovered, rfl⟩
    obtain ⟨raw, hraw, hassets⟩ := hcovered.listed
    have hsafe : ∀ name ∈ assets.map Prod.fst, safeName name = true := by
      intro name hname
      obtain ⟨asset, hasset, rfl⟩ := List.mem_map.mp hname
      exact hcovered.safe asset hasset
    refine except_bind_ok.mpr ⟨raw, readRegular_ok.mpr hraw,
      except_bind_ok.mpr ⟨assets, hassets, ?_⟩⟩
    rw [if_neg (by simp [hcovered.there])]
    refine except_bind_ok.mpr ⟨_, directoryNames_ok.mpr ⟨rfl, ?_⟩, except_bind_ok.mpr
      ⟨_, directoryNames_ok.mpr ⟨rfl, ?_⟩, except_bind_ok.mpr ⟨(), ?_, except_bind_ok.mpr ⟨(), ?_,
        except_bind_ok.mpr ⟨(), checkDigests_ok.mpr hcovered.digests, rfl⟩⟩⟩⟩⟩
    · intro name hname
      exact hsafe name ((hcovered.names name).mpr (.inl hname))
    · intro name hname
      by_cases hbeside : name ∈ besideAssets
      · -- the three names beside the assets are safe themselves
        exact (show ∀ other ∈ besideAssets, safeName other = true by decide) name hbeside
      · exact hsafe name ((hcovered.names name).mpr (.inr ⟨hname, hbeside⟩))
    · rw [require_ok, List.all_eq_true]
      intro name hname
      simp only [List.mem_filter, decide_eq_true_eq, not_and, not_not]
      exact hcovered.apart name hname
    · rw [require_ok, Bool.and_eq_true, List.all_eq_true, List.all_eq_true]
      constructor
      · intro name hname
        simpa only [List.mem_append, List.mem_filter, decide_eq_true_eq]
          using (hcovered.names name).mp hname
      · intro name hname
        simp only [List.mem_append, List.mem_filter, decide_eq_true_eq] at hname
        simpa using (hcovered.names name).mpr hname

/-- Two releases that are accepted with the same list have the same assets, by name and digest. -/
theorem assets_agree {D D' : Download} {names names' : List PyStr}
    (h : verifyReleaseAssets C D = .ok names)
    (h' : verifyReleaseAssets C D' = .ok names')
    (hlist : D.regular [sumsName] = D'.regular [sumsName]) :
    names = names' ∧ ∀ name ∈ names, ∃ data data',
      D.regular (assetPath D name) = some data ∧ D'.regular (assetPath D' name) = some data'
        ∧ C.sha256 data = C.sha256 data' := by
  obtain ⟨assets, hcovered, rfl⟩ := assets_exact.mp h
  obtain ⟨assets', hcovered', rfl⟩ := assets_exact.mp h'
  obtain ⟨raw, hraw, hassets⟩ := hcovered.listed
  obtain ⟨raw', hraw', hassets'⟩ := hcovered'.listed
  obtain rfl := Option.some.inj ((hraw.symm.trans hlist).trans hraw')
  obtain rfl := Except.ok.inj (hassets.symm.trans hassets')
  refine ⟨rfl, ?_⟩
  intro name hname
  obtain ⟨asset, hasset, rfl⟩ := List.mem_map.mp (mem_sortedSet.mp hname)
  obtain ⟨data, hdata, hdigest⟩ := hcovered.digests asset hasset
  obtain ⟨data', hdata', hdigest'⟩ := hcovered'.digests asset hasset
  exact ⟨data, data', hdata, hdata', hdigest.trans hdigest'.symm⟩

def wheelDigest : Nat := 0xba59926159d2aa256eb8739b8da7e2b574b960e1202c6d624cbe981cef996c91
def archiveDigest : Nat := 0x0eb3e36bfb24dcd9bb1d1bece1531216b59539a8fde17ee80224af0653c92aa3

/-- The digests of two assets. -/
def sampleDigests : Crypto :=
  .ofTables [(some (bytesOf "wheel"), wheelDigest), (some (bytesOf "archive"), archiveDigest)] []

/-- Their list. -/
def sampleSums : Bytes :=
  ((utf8Encode
    (sumsText [(lit "d.whl", hexDigest wheelDigest), (lit "d.zip", hexDigest archiveDigest)])).getD
    [])

/-- The wheel is where the release has put it. -/
def sampleRelease : Download where
  root := lit "release"
  entries :=
    [([lit "distributions"], .directory),
      ([lit "distributions", lit "d.whl"], .file (bytesOf "wheel") 1),
      ([lit "d.zip"], .file (bytesOf "archive") 1), ([sumsName], .file sampleSums 1)]

/-- The same assets side by side, and a directory with nothing in it. -/
def flatRelease : Download where
  root := lit "flat"
  entries :=
    [([sumsName], .file sampleSums 1), ([lit "d.zip"], .file (bytesOf "archive") 1),
      ([lit "d.whl"], .file (bytesOf "wheel") 1), ([lit "distributions"], .directory)]

theorem releases_ok : (verifyReleaseAssets sampleDigests sampleRelease).isOk = true
    ∧ (verifyReleaseAssets sampleDigests flatRelease).isOk = true := by decide +kernel

theorem assets_agree_sample : ∃ names, verifyReleaseAssets sampleDigests sampleRelease = .ok names
    ∧ verifyReleaseAssets sampleDigests flatRelease = .ok names
    ∧ assetPath sampleRelease (lit "d.whl") ≠ assetPath flatRelease (lit "d.whl")
    ∧ ∀ name ∈ names, ∃ data data',
      sampleRelease.regular (assetPath sampleRelease name) = some data
        ∧ flatRelease.regular (assetPath flatRelease name) = some data'
        ∧ sampleDigests.sha256 data = sampleDigests.sha256 data' := by
  obtain ⟨names, hnames⟩ := exists_of_isOk releases_ok.1
  obtain ⟨names', hnames'⟩ := exists_of_isOk releases_ok.2
  obtain ⟨rfl, hagree⟩ := assets_agree hnames hnames' rfl
  exact ⟨names, hnames, hnames', by decide +kernel, hagree⟩

/-- A second link to a listed file, or a link in its place, is refused. -/
example : (verifyReleaseAssets sampleDigests { sampleRelease with
    entries := ([lit "d.zip"], .file (bytesOf "archive") 2) :: sampleRelease.entries }).isOk
    = false := by
  decide +kernel

/-! ## Lists that were written -/

/-- A text in ASCII is decoded from its own bytes. -/
theorem asciiDecode_encode {text : PyStr} (h : isAscii text = true) {raw : Bytes}
    (hraw : utf8Encode text = some raw) :
    asciiDecode raw = some text := by
  rw [utf8Encode_ascii h] at hraw
  obtain rfl := Option.some.inj hraw
  have hsmall : ∀ c ∈ text, (byte c.val).val = c.val := by
    intro c hc
    have hlt : c.val < 0x80 := by simpa using List.all_eq_true.mp h c hc
    exact Nat.mod_eq_of_lt (by omega)
  unfold asciiDecode
  rw [if_pos]
  · rw [List.map_map]
    congr 1
    conv_rhs => rw [← List.map_id text]
    apply List.map_congr_left
    intro c hc
    show cp (byte c.val).val = c
    rw [hsmall c hc]
    exact Fin.ofNat_val_eq_self c
  · rw [List.all_map, List.all_eq_true]
    intro c hc
    show decide ((byte c.val).val < 0x80) = true
    rw [hsmall c hc]
    exact List.all_eq_true.mp h c hc

/-- One line of a list. -/
def rowText (row : PyStr × PyStr) : PyStr := row.2 ++ lit "  " ++ row.1

/-- Lines joined by newlines, with one more at the end, are terminated. -/
theorem joinTexts_lf {texts : List PyStr} (h : texts ≠ []) :
    joinTexts (lit "\n") texts ++ lit "\n" = terminated lf texts := by
  induction texts with
  | nil => exact absurd rfl h
  | cons s rest ih =>
    cases rest with
    | nil =>
      show s ++ [lf] = (s ++ [lf]) ++ []
      rw [List.append_nil]
    | cons t rest =>
      have hrest := ih (List.cons_ne_nil _ _)
      unfold terminated at hrest ⊢
      rw [List.flatMap_cons, ← hrest]
      show s ++ lit "\n" ++ joinTexts (lit "\n") (t :: rest) ++ lit "\n" = _
      rw [List.append_assoc, List.append_assoc, List.append_assoc]
      rfl

/-- A row that a list may hold. -/
structure IsRow (row : PyStr × PyStr) : Prop where
  name : safeName row.1 = true
  digest : isSha256 row.2 = true

/-- A safe name is ASCII and has neither white space nor a separator. -/
theorem safeName_plain {name : PyStr} (h : safeName name = true) :
    name ≠ [] ∧ ∀ c ∈ name, 0x21 ≤ c.val ∧ c.val < 0x80 ∧ c.val ≠ 0x2F := by
  have hchar : ∀ c : CodePoint, (isAlphanumeric c || (lit "._+-").contains c) = true →
      0x21 ≤ c.val ∧ c.val < 0x80 ∧ c.val ≠ 0x2F := by
    intro c hc
    rcases Bool.or_eq_true_iff.mp hc with hc | hc
    · simp only [isAlphanumeric, Bool.or_eq_true, Bool.and_eq_true, decide_eq_true_eq] at hc
      omega
    · have hmem : c ∈ lit "._+-" := by simpa using hc
      rw [show lit "._+-" = [cp 0x2E, cp 0x5F, cp 0x2B, cp 0x2D] from rfl] at hmem
      simp only [List.mem_cons, List.not_mem_nil, or_false] at hmem
      rcases hmem with rfl | rfl | rfl | rfl
      all_goals simp [cp]
  cases name with
  | nil => simp [safeName] at h
  | cons c rest =>
    obtain ⟨hfirst, hrest⟩ := Bool.and_eq_true_iff.mp h
    refine ⟨List.cons_ne_nil _ _, ?_⟩
    intro d hd
    rcases List.mem_cons.mp hd with rfl | hd
    · exact hchar d (by rw [hfirst, Bool.true_or])
    · exact hchar d (List.all_eq_true.mp hrest d hd)

theorem isSha256_plain {digest : PyStr} (h : isSha256 digest = true) :
    digest.length = 64 ∧ ∀ c ∈ digest, 0x21 ≤ c.val ∧ c.val < 0x80 := by
  obtain ⟨hlength, hall⟩ := Bool.and_eq_true_iff.mp h
  refine ⟨by simpa using hlength, ?_⟩
  intro c hc
  have hdigit := List.all_eq_true.mp hall c hc
  simp only [Bool.or_eq_true, Bool.and_eq_true, decide_eq_true_eq] at hdigit
  omega

/-- A row is written in printable ASCII. -/
theorem IsRow.plain {row : PyStr × PyStr} (h : IsRow row) :
    ∀ c ∈ rowText row, 0x20 ≤ c.val ∧ c.val < 0x80 := by
  intro c hc
  rcases List.mem_append.mp hc with hc | hc
  · rcases List.mem_append.mp hc with hc | hc
    · have hdigit := (isSha256_plain h.digest).2 c hc
      omega
    · rw [show lit "  " = [cp 0x20, cp 0x20] from rfl] at hc
      obtain rfl : c = cp 0x20 := by simpa using hc
      simp [cp]
  · have hname := (safeName_plain h.name).2 c hc
    omega

theorem IsRow.unbroken {row : PyStr × PyStr} (h : IsRow row) : Owner.Unbroken (rowText row) := by
  intro c hc
  have hplain := h.plain c hc
  unfold isLineBreak
  simp only [Bool.or_eq_false_iff, Bool.and_eq_false_iff, decide_eq_false_iff_not,
    beq_eq_false_iff_ne]
  omega

/-- A row of the list is read back. -/
theorem manifestRow_rowText {row : PyStr × PyStr} (h : IsRow row) :
    manifestRow (rowText row) = some (row.2, row.1) := by
  obtain ⟨hlength, -⟩ := isSha256_plain h.digest
  obtain ⟨hne, hname⟩ := safeName_plain h.name
  have htake : (rowText row).take 64 = row.2 := by
    unfold rowText
    rw [List.append_assoc, ← hlength, List.take_left]
  have hspaces : ((rowText row).drop 64).take 2 = lit "  " := by
    unfold rowText
    rw [List.append_assoc, ← hlength, List.drop_left]
    rfl
  have hdrop : (rowText row).drop 66 = row.1 := by
    have hfront : (row.2 ++ lit "  ").length = 66 := by
      rw [List.length_append, hlength]
      rfl
    unfold rowText
    rw [← hfront, List.drop_left]
  have hbreak : (row.1.all fun c => c.val != 0x0D && c.val != 0x0A) = true := by
    rw [List.all_eq_true]
    intro c hc
    have hplain := hname c hc
    simp only [Bool.and_eq_true, bne_iff_ne]
    omega
  unfold manifestRow
  simp only [htake, hspaces, hdrop, h.digest, hbreak, Bool.true_and, Bool.and_true]
  simp [hne]

/-- Rows with different names are all expected; the induction is on the rows, behind those that were
read before. -/
theorem expectedAssets_rows {rows : List (PyStr × PyStr)} : ∀ {expected : List (PyStr × PyStr)},
    (∀ row ∈ rows, IsRow row) → ((expected ++ rows).map Prod.fst).Nodup →
      expectedAssets expected (rows.map rowText) = .ok (expected ++ rows) := by
  induction rows with
  | nil =>
    intro expected _ _
    rw [List.append_nil]
    rfl
  | cons row rows ih =>
    intro expected hrows hnodup
    have hrow := hrows row (List.mem_cons_self ..)
    have hfresh : row.1 ∉ expected.map Prod.fst := by
      rw [List.map_append, List.map_cons, List.nodup_append] at hnodup
      intro hmem
      exact hnodup.2.2 _ hmem _ (List.mem_cons_self ..) rfl
    rw [List.map_cons, expectedAssets, manifestRow_rowText hrow]
    dsimp only
    rw [if_neg (by simp [hrow.name]), if_neg hfresh,
      ih (fun r hr => hrows r (List.mem_cons_of_mem _ hr))]
    · rw [List.append_assoc]
      rfl
    · rwa [List.append_assoc]

/-- A list that was written is read back. -/
theorem publicManifest_sumsText {rows : List (PyStr × PyStr)} {raw : Bytes} (hne : rows ≠ [])
    (hrows : ∀ row ∈ rows, IsRow row) (hnodup : (rows.map Prod.fst).Nodup)
    (hraw : utf8Encode (sumsText rows) = some raw) (hsize : raw.length ≤ maxPublicManifestBytes) :
    publicManifest raw = .ok rows := by
  have htext : sumsText rows = terminated lf (rows.map rowText) := joinTexts_lf (by simpa using hne)
  have hascii : isAscii (sumsText rows) = true := by
    rw [htext]
    apply List.all_eq_true.mpr
    intro c hc
    rcases mem_terminated hc with rfl | ⟨text, htext, hc⟩
    · decide
    · obtain ⟨row, hrow, rfl⟩ := List.mem_map.mp htext
      simpa using ((hrows row hrow).plain c hc).2
  have hlines : splitLines (sumsText rows) = rows.map rowText := by
    rw [htext]
    apply splitLines_terminated
    intro text htext
    obtain ⟨row, hrow, rfl⟩ := List.mem_map.mp htext
    exact (hrows row hrow).unbroken
  refine except_bind_ok.mpr ⟨(), require_ok.mpr (by simpa using hsize), ?_⟩
  rw [asciiDecode_encode hascii hraw]
  dsimp only
  rw [hlines]
  exact except_bind_ok.mpr ⟨(), require_ok.mpr (by simpa using hne),
    expectedAssets_rows hrows hnodup⟩

/-! ## What the bundle leaves -/

section Written

variable {P : Packaging} {A : Archives} {device : Nat → Except Exn Unit}

theorem create_safe {d : OutputFolder} {T : Tree} {name : PyStr} {t u : Nat} {a : Unit}
    (h : (d.create device T name).run t = (.ok a, u)) : safeName name = true := by
  obtain ⟨_, _, hrun, -⟩ := timed_bind_ok.mp h
  exact (check_ok.mp hrun).1

/-- The distributions are a wheel and a source. -/
theorem openInputs_pair {host : Host} {t u : Nat} {i : Opened}
    (h : (openInputs host).run t = (.ok i, u)) :
    ∃ pair, distributionPair i.distributions = some pair := by
  obtain ⟨dist, _, -, h⟩ := timed_bind_ok.mp h
  obtain ⟨wheelhouse, _, -, h⟩ := timed_bind_ok.mp h
  obtain ⟨parent, _, -, h⟩ := timed_bind_ok.mp h
  obtain ⟨lock, _, -, h⟩ := timed_bind_ok.mp h
  obtain ⟨distributions, _, -, h⟩ := timed_bind_ok.mp h
  obtain ⟨pair, _, hpair, h⟩ := timed_bind_ok.mp h
  obtain ⟨wheels, _, -, h⟩ := timed_bind_ok.mp h
  obtain ⟨_, _, -, h⟩ := timed_bind_ok.mp h
  obtain ⟨rfl, -⟩ := timed_pure_ok.mp h
  exact ⟨pair, (expect_ok.mp hpair).1⟩

/-- Only safe names are copied. -/
theorem copyAll_safe {fuel : Nat} {d : OutputFolder} {files : List OpenedFile} :
    ∀ {T T' : Tree} {t u : Nat}, (copyAll device fuel d T files).run t = (.ok T', u) →
      ∀ f ∈ files, safeName f.name = true := by
  induction files with
  | nil => simp
  | cons f rest ih =>
    intro T T' t u h
    obtain ⟨T₁, s, hcopy, h⟩ := timed_bind_ok.mp h
    obtain ⟨_, s', -, hcopy⟩ := timed_bind_ok.mp hcopy
    obtain ⟨_, s'', hcreate, -⟩ := timed_bind_ok.mp hcopy
    rw [List.forall_mem_cons]
    exact ⟨create_safe hcreate, ih h⟩

/-- The copies of the distributions come first, everything else is below `offline`. -/
theorem copyInputs_files {fuel : Nat} {i : Opened} {T : Tree} {t u : Nat}
    (h : (copyInputs device fuel i).run t = (.ok T, u)) (hi : i.By t) :
    (∀ f ∈ i.distributions, safeName f.name = true) ∧ ∃ rest : Tree,
      T = i.distributions.map (fun f => ([lit "distributions", f.name], f.bytes)) ++ rest
        ∧ ∀ e ∈ rest, ∃ part path, e.1 = lit "offline" :: part :: path := by
  obtain ⟨T₁, s₁, hcopy₁, h⟩ := timed_bind_ok.mp h
  obtain ⟨T₂, s₂, hcopy₂, h⟩ := timed_bind_ok.mp h
  obtain ⟨T₃, s₃, hcopy₃, h⟩ := timed_bind_ok.mp h
  have h₁ := hi.mono (Timed.le hcopy₁)
  have h₂ := h₁.mono (Timed.le hcopy₂)
  have h₃ := h₂.mono (Timed.le hcopy₃)
  have hsafe := copyAll_safe hcopy₁
  obtain ⟨rfl, hT⟩ := copyAll_ok hcopy₁ hi.distributions (by simp [Tree.Distinct])
  obtain ⟨rfl, hT⟩ := copyToAt_ok hcopy₂ (h₁.distributions _ h₁.project) hT
  obtain ⟨rfl, hT⟩ := copyAll_ok hcopy₃ h₂.wheels hT
  obtain ⟨rfl, -⟩ := copyToAt_ok h h₃.lock hT
  refine ⟨hsafe, ?_⟩
  rw [List.nil_append, List.append_assoc, List.append_assoc]
  refine ⟨_, rfl, ?_⟩
  intro e he
  simp only [List.mem_append, List.mem_singleton, List.mem_map] at he
  rcases he with rfl | ⟨f, -, rfl⟩ | rfl
  · exact ⟨_, _, rfl⟩
  · exact ⟨_, _, rfl⟩
  · exact ⟨_, _, rfl⟩

/-- What a bundle leaves in the output directory. -/
structure Left (C : Crypto) (i : Opened) (archiveName : PyStr) (T : Tree) : Prop where
  distinct : T.Distinct
  distributions : ∀ f ∈ i.distributions, safeName f.name = true
  archive : safeName archiveName = true
  files : ∃ (rest : Tree) (zipped sums : Bytes) (rows : List (PyStr × PyStr)),
    T = i.distributions.map (fun f => ([lit "distributions", f.name], f.bytes))
        ++ (rest ++ [([archiveName], zipped), ([sumsName], sums)])
      ∧ (∀ e ∈ rest, ∃ part path, e.1 = lit "offline" :: part :: path)
      ∧ rows.Perm ((archiveName, C.sha256 zipped) :: i.distributions.map fun f =>
        (f.name, C.sha256 f.bytes))
      ∧ utf8Encode (sumsText rows) = some sums

/-- What a bundle leaves beside the archive, and that the result names it. -/
theorem writeBundle_left {host : Host} {fuel : Nat} {version platformLabel : PyStr} {i : Opened}
    {t u : Nat} {r : Bundle}
    (h : (writeBundle A C host fuel version platformLabel i).run t = (.ok r, u)) (hi : i.By t) :
    Left C i r.offlineArchive r.files ∧ r.offlineArchive = archiveRoot version platformLabel
    ++ lit ".zip"
      ∧ r.projectWheel = i.project.name ∧ r.publicAssetCount = i.distributions.length + 2 := by
  obtain ⟨existing, s₁, h₁, h⟩ := timed_bind_ok.mp h
  obtain ⟨_, s₂, h₂, h⟩ := timed_bind_ok.mp h
  obtain ⟨_, s₃, h₃, h⟩ := timed_bind_ok.mp h
  obtain ⟨T, s₄, hcopies, h⟩ := timed_bind_ok.mp h
  obtain ⟨manifest, s₅, -, h⟩ := timed_bind_ok.mp h
  obtain ⟨T₁, s₆, hwrite, h⟩ := timed_bind_ok.mp h
  obtain ⟨_, s₇, hcreate, h⟩ := timed_bind_ok.mp h
  obtain ⟨entries, s₈, -, h⟩ := timed_bind_ok.mp h
  obtain ⟨_, s₉, -, h⟩ := timed_bind_ok.mp h
  obtain ⟨rows, s₁₀, hrows, h⟩ := timed_bind_ok.mp h
  obtain ⟨sums, s₁₁, hsums, h⟩ := timed_bind_ok.mp h
  obtain ⟨T₂, s₁₂, hlast, h⟩ := timed_bind_ok.mp h
  obtain ⟨rfl, -⟩ := timed_pure_ok.mp h
  have hby := hi.mono (Nat.le_trans (Timed.le h₁) (Nat.le_trans (Timed.le h₂) (Timed.le h₃)))
  obtain ⟨hT, -, hpublic⟩ := copyInputs_ok hcopies hby
  obtain ⟨hsafe, rest, hfiles, hrest⟩ := copyInputs_files hcopies hby
  obtain ⟨rfl, hT₁⟩ := writeBytes_ok hwrite hT
  have hT₂ :
    Tree.Distinct (_ ++ [(releaseOutput.path ++ [archiveRoot version platformLabel ++ lit ".zip"],
      A.zipped entries)]) := create_ok hcreate hT₁
  have hrows := publicRows_ok hrows (find_of_mem hT₂ List.mem_concat_self) fun f hf =>
    find_of_mem hT₂ (List.mem_append_left _ (List.mem_append_left _ (hpublic f hf)))
  obtain ⟨rfl, hT₃⟩ := writeBytes_ok hlast hT₂
  refine ⟨⟨hT₃, hsafe, create_safe hcreate,
    rest ++ [(offline.path ++ [sumsName], manifest)], A.zipped entries, sums, rows, ?_, ?_, hrows,
    (expect_ok.mp hsums).1⟩, rfl, rfl, ?_⟩
  · rw [hfiles]
    simp [releaseOutput]
  · intro e he
    rcases List.mem_append.mp he with he | he
    · exact hrest e he
    · obtain rfl := List.mem_singleton.mp he
      exact ⟨_, _, rfl⟩
  · show rows.length + 1 = _
    rw [hrows.length_eq]
    simp

/-- A file whose name ends in `.whl`, as the suffix has it, has an `l` at its end. -/
theorem isWheel_last {f : OpenedFile} (hsafe : safeName f.name = true) (h : isWheel f = true) :
    f.name.getLast? = some (cp 0x6C) := by
  obtain ⟨hne, hplain⟩ := safeName_plain hsafe
  have hcomponent : Evidence.IsComponent f.name := by
    refine ⟨?_, hne, ?_⟩
    · intro hslash
      exact (hplain _ hslash).2.2 (by simp [Evidence.slash, cp])
    · intro hdot
      rw [hdot] at hsafe
      exact absurd hsafe (by decide)
  have hsuffix : Evidence.suffixOf f.name = lit ".whl" := by simpa [isWheel] using h
  unfold Evidence.suffixOf at hsuffix
  rw [Evidence.nameOf_component hcomponent] at hsuffix
  dsimp only at hsuffix
  split at hsuffix
  · have htail : (f.name.reverse.takeWhile (· != cp 0x2E)).reverse = lit "whl" :=
      (List.cons.inj hsuffix).2
    have hfront : f.name.reverse.takeWhile (· != cp 0x2E) = (lit "whl").reverse := by
      rw [← htail, List.reverse_reverse]
    have hprefix := List.takeWhile_prefix (p := (· != cp 0x2E)) (l := f.name.reverse)
    rw [hfront] at hprefix
    obtain ⟨more, hmore⟩ := hprefix
    rw [← List.head?_reverse, ← hmore]
    rfl
  · exact absurd hsuffix (by decide)

theorem suffix_last {front name : PyStr} {c : CodePoint}
    (h : (front ++ [c]).isSuffixOf name = true) :
    name.getLast? = some c := by
  obtain ⟨before, rfl⟩ := List.isSuffixOf_iff_suffix.mp h
  rw [← List.append_assoc, List.getLast?_concat]

/-- Every distribution is the wheel or the source archive. -/
theorem distributionPair_kinds {distributions : List OpenedFile} {pair : OpenedFile × OpenedFile}
    (h : distributionPair distributions = some pair)
    (hsafe : ∀ f ∈ distributions, safeName f.name = true) :
    ∀ f ∈ distributions, f.name.getLast? = some (cp 0x6C) ∨ f.name.getLast? = some (cp 0x7A) := by
  have hwheel : ∀ f ∈ distributions, isWheel f = true →
    f.name.getLast? = some (cp 0x6C) := fun f hf =>
    isWheel_last (hsafe f hf)
  have hsource : ∀ f : OpenedFile, (lit ".tar.gz").isSuffixOf f.name = true →
    f.name.getLast? = some (cp 0x7A) :=
    fun f hf => @suffix_last (lit ".tar.g") f.name (cp 0x7A) hf
  unfold distributionPair at h
  split at h
  · next wheel source hwheels hsources =>
    split at h
    · next htwo =>
      obtain ⟨a, b, rfl⟩ := List.length_eq_two.mp htwo
      -- a file that is neither would leave both places to the other one
      have hboth : ∀ f ∈ [a, b], isWheel f = true ∨ (lit ".tar.gz").isSuffixOf f.name = true := by
        by_contra hnot
        push Not at hnot
        obtain ⟨f, hf, hf₁, hf₂⟩ := hnot
        have hw : wheel ∈ [a, b].filter isWheel := hwheels ▸ List.mem_singleton_self wheel
        have hs : source ∈ [a, b].filter fun f => (lit ".tar.gz").isSuffixOf f.name :=
          hsources ▸ List.mem_singleton_self source
        obtain ⟨hw, hw'⟩ := List.mem_filter.mp hw
        obtain ⟨hs, hs'⟩ := List.mem_filter.mp hs
        have hne : wheel ≠ source := by
          rintro rfl
          have hlast := (hwheel _ hw hw').symm.trans (hsource _ hs')
          exact absurd (Option.some.inj hlast) (by simp [cp])
        have hf₁' : f ≠ wheel := by
          rintro rfl
          exact hf₁ hw'
        have hf₂' : f ≠ source := by
          rintro rfl
          exact hf₂ hs'
        simp only [List.mem_cons, List.not_mem_nil, or_false] at hf hw hs
        rcases hf with rfl | rfl <;> rcases hw with rfl | rfl <;> rcases hs with rfl | rfl
          <;> simp_all
      intro f hf
      rcases hboth f hf with hf' | hf'
      · exact .inl (hwheel f hf hf')
      · exact .inr (hsource f hf')
    · simp at h
  · simp at h

/-- The names in a directory are those of its entries. -/
theorem mem_names {D : Download} {directory : Path} {name : PyStr} :
    name ∈ D.names directory ↔ ∃ e ∈ D.entries, e.1 = directory ++ [name] := by
  unfold Download.names
  rw [mem_sortedSet, List.mem_filterMap]
  refine exists_congr fun e => and_congr_right fun _ => ?_
  unfold entryOf
  constructor
  · intro h
    split at h
    · next hdirectory =>
      rw [← hdirectory]
      exact (List.dropLast_append_getLast? name h).symm
    · simp at h
  · intro hpath
    rw [hpath, if_pos List.dropLast_concat, List.getLast?_concat]

/-- The directories that a bundle makes. -/
def bundleDirectories : List Path :=
  [releaseDistributions.path, offline.path, offlineDistributions.path, offlineWheelhouse.path]

/-- The output directory of a bundle, as a release: its files are new, and nobody links them. -/
def Tree.download (T : Tree) (root : PyStr) : Download where
  root := root
  entries := bundleDirectories.map (fun path => (path, .directory)) ++ T.map fun e =>
    (e.1, .file e.2 1)

/-- Outside the directories of a bundle, the downloaded tree has the regular files that the bundle
has. -/
theorem regular_download {T : Tree} {root : PyStr} {path : Path}
    (hpath : path ∉ bundleDirectories) :
    (T.download root).regular path = T.find path := by
  have hnone : (bundleDirectories.map fun path => (path, Node.directory)).find?
    (fun e => e.1 == path) = none := by
    rw [List.find?_eq_none]
    intro e he
    obtain ⟨directory, hdirectory, rfl⟩ := List.mem_map.mp he
    simp only [beq_iff_eq]
    rintro rfl
    exact hpath hdirectory
  have hfiles : (T.map fun e => (e.1, Node.file e.2 1)).find? (fun e => e.1 == path)
      = (List.find? (fun e => e.1 == path) T).map fun e => (e.1, Node.file e.2 1) := by
    rw [List.find?_map]
    rfl
  unfold Download.regular Download.find Tree.download Tree.find
  dsimp only
  rw [List.find?_append, hnone, Option.none_or, hfiles]
  cases List.find? (fun e => e.1 == path) T with
  | none => rfl
  | some e => rfl

/-- What is below the output directory. -/
theorem mem_download {T : Tree} {root : PyStr} {path : Path} :
    (∃ e ∈ (T.download root).entries, e.1 = path) ↔ path ∈ bundleDirectories
    ∨ ∃ e ∈ T, e.1 = path := by
  unfold Tree.download
  dsimp only
  constructor
  · rintro ⟨e, he, rfl⟩
    rcases List.mem_append.mp he with he | he
    · obtain ⟨directory, hdirectory, rfl⟩ := List.mem_map.mp he
      exact .inl hdirectory
    · obtain ⟨file, hfile, rfl⟩ := List.mem_map.mp he
      exact .inr ⟨file, hfile, rfl⟩
  · rintro (hdirectory | ⟨e, he, rfl⟩)
    · exact ⟨_, List.mem_append_left _ (List.mem_map_of_mem hdirectory), rfl⟩
    · exact ⟨_, List.mem_append_right _ (List.mem_map_of_mem he), rfl⟩

/-- The list that a bundle has left covers what it has left. -/
theorem covered_of_left {i : Opened} {archiveName root : PyStr} {T : Tree} (hC : C.Hex)
    (h : Left C i archiveName T)
    (hkinds : ∀ f ∈ i.distributions, f.name.getLast? = some (cp 0x6C)
      ∨ f.name.getLast? = some (cp 0x7A))
    (hfirst : archiveName.head? = some (cp 0x61))
    (hlast : archiveName.getLast? = some (cp 0x70))
    (hsize : ∀ sums, T.find [sumsName] = some sums → sums.length ≤ maxPublicManifestBytes) :
    ∃ assets : List (PyStr × PyStr), Covered C (T.download root) assets
      ∧ (assets.map Prod.fst).Perm (archiveName :: i.distributions.map (·.name)) := by
  obtain ⟨rest, zipped, sums, rows, hT, hrest, hrows, hsums⟩ := h.files
  have hbeside : archiveName ∉ besideAssets := by
    intro hmem
    rw [show besideAssets = [lit "SHA256SUMS.txt", lit "distributions", lit "offline"] from rfl]
      at hmem
    simp only [List.mem_cons, List.not_mem_nil, or_false] at hmem
    rcases hmem with rfl | rfl | rfl
    · exact absurd hfirst (by decide)
    · exact absurd hfirst (by decide)
    · exact absurd hfirst (by decide)
  have hnames : (rows.map Prod.fst).Perm (archiveName :: i.distributions.map (·.name)) := by
    have hperm := hrows.map Prod.fst
    rwa [List.map_cons, List.map_map] at hperm
  -- a name in both places would end the archive and a distribution
  have hother : archiveName ∉ i.distributions.map (·.name) := by
    intro hmem
    obtain ⟨f, hf, heq⟩ := List.mem_map.mp hmem
    rw [← heq] at hlast
    rcases hkinds f hf with hf | hf
    · exact absurd (Option.some.inj (hf.symm.trans hlast)) (by simp [cp])
    · exact absurd (Option.some.inj (hf.symm.trans hlast)) (by simp [cp])
  have hdistributions : ∀ name,
      name ∈ (T.download root).names distributionsPath ↔ ∃ f ∈ i.distributions, f.name = name := by
    intro name
    rw [mem_names, mem_download]
    constructor
    · rintro (hmem | ⟨e, he, hpath⟩)
      · exact absurd (hmem : [lit "distributions", name] ∈ bundleDirectories) (by
          simp [bundleDirectories, releaseDistributions, offline, offlineDistributions,
            offlineWheelhouse,
            distributionsPath])
      rw [hT] at he
      simp only [List.mem_append, List.mem_map, List.mem_cons, List.not_mem_nil, or_false] at he
      rcases he with ⟨f, hf, rfl⟩ | he | rfl | rfl
      · exact ⟨f, hf, (List.cons.inj (List.cons.inj hpath).2).1⟩
      · obtain ⟨part, path', hpath'⟩ := hrest e he
        exact absurd (List.cons.inj (hpath'.symm.trans hpath)).1 (by decide)
      · exact absurd (congrArg List.length hpath) (by simp [distributionsPath])
      · exact absurd (congrArg List.length hpath) (by simp [distributionsPath])
    · rintro ⟨f, hf, rfl⟩
      refine .inr ⟨([lit "distributions", f.name], f.bytes), ?_, rfl⟩
      rw [hT]
      exact List.mem_append_left _ (List.mem_map_of_mem hf)
  have hroot : ∀ name, name ∈ (T.download root).names [] → name ∈ besideAssets
    ∨ name = archiveName := by
    intro name hname
    rcases mem_download.mp (mem_names.mp hname) with hmem | ⟨e, he, hpath⟩
    · refine .inl ?_
      simp only [bundleDirectories, releaseDistributions, offline, offlineDistributions,
        offlineWheelhouse,
        List.nil_append, List.mem_cons, List.cons.injEq, and_true, reduceCtorEq,
          and_false, or_false,
        List.not_mem_nil] at hmem
      rcases hmem with rfl | rfl
      · simp [besideAssets]
      · simp [besideAssets]
    rw [hT] at he
    simp only [List.mem_append, List.mem_map, List.mem_cons, List.not_mem_nil, or_false] at he
    rcases he with ⟨f, hf, rfl⟩ | he | rfl | rfl
    · exact absurd (congrArg List.length hpath) (by simp)
    · obtain ⟨part, path', hpath'⟩ := hrest e he
      exact absurd (congrArg List.length (hpath'.symm.trans hpath)) (by simp)
    · exact .inr (List.cons.inj hpath).1.symm
    · rw [← (List.cons.inj hpath).1]
      exact .inl (by simp [besideAssets])
  have hzip : ([archiveName], zipped) ∈ T := by
    rw [hT]
    simp
  have harchive : archiveName ∈ (T.download root).names [] :=
    mem_names.mpr (mem_download.mpr (.inr ⟨_, hzip, rfl⟩))
  have hfind : T.find [sumsName] = some sums := find_of_mem h.distinct (by
    rw [hT]
    simp)
  have hlist : (T.download root).regular [sumsName] = some sums := by
    rw [regular_download (by decide), hfind]
  have hnodup : (rows.map Prod.fst).Nodup := by
    rw [hnames.nodup_iff, List.nodup_cons]
    refine ⟨hother, ?_⟩
    have hdistinct := h.distinct
    unfold Tree.Distinct at hdistinct
    rw [hT, List.map_append, List.nodup_append] at hdistinct
    have hpaths := hdistinct.1
    rw [List.map_map] at hpaths
    apply List.Nodup.of_map (fun name => [lit "distributions", name])
    rwa [List.map_map]
  have hall : ∀ row ∈ rows, IsRow row := by
    intro row hrow
    rcases List.mem_cons.mp (hrows.mem_iff.mp hrow) with rfl | hrow
    · exact ⟨h.archive, hC _⟩
    · obtain ⟨f, hf, rfl⟩ := List.mem_map.mp hrow
      exact ⟨h.distributions f hf, hC _⟩
  have hsome : rows ≠ [] := by
    rintro rfl
    exact absurd hrows.length_eq (by simp)
  refine ⟨rows,
    ⟨rfl, ⟨sums, hlist, publicManifest_sumsText hsome hall hnodup hsums (hsize sums hfind)⟩, hnodup,
    fun row hrow => (hall row hrow).name, ?_, ?_, ?_⟩, hnames⟩
  · intro name hname hname'
    obtain ⟨f, hf, rfl⟩ := (hdistributions name).mp hname
    rcases hroot _ hname' with hmem | heq
    · exact hmem
    · exact absurd (heq ▸ List.mem_map_of_mem hf) hother
  · intro name
    rw [hnames.mem_iff, List.mem_cons, List.mem_map, hdistributions]
    constructor
    · rintro (rfl | hname)
      · exact .inr ⟨harchive, hbeside⟩
      · exact .inl hname
    · rintro (hname | ⟨hname, hnot⟩)
      · exact .inr hname
      · exact .inl ((hroot name hname).resolve_left hnot)
  · intro row hrow
    rcases List.mem_cons.mp (hrows.mem_iff.mp hrow) with rfl | hrow
    · refine ⟨zipped, ?_, rfl⟩
      have hnot : archiveName ∉ (T.download root).names distributionsPath := by
        intro hmem
        obtain ⟨f, hf, heq⟩ := (hdistributions _).mp hmem
        exact hother (List.mem_map.mpr ⟨f, hf, heq⟩)
      have hplain : [archiveName] ∉ bundleDirectories := by
        intro hmem
        simp only [bundleDirectories, releaseDistributions, offline, offlineDistributions,
          offlineWheelhouse,
          List.mem_cons, List.cons.injEq, and_true, reduceCtorEq, and_false, or_false,
          List.not_mem_nil] at hmem
        exact hbeside (by rcases hmem with rfl | rfl <;> simp [besideAssets])
      unfold assetPath
      rw [if_neg hnot, regular_download hplain]
      exact find_of_mem h.distinct hzip
    · obtain ⟨f, hf, rfl⟩ := List.mem_map.mp hrow
      refine ⟨f.bytes, ?_, rfl⟩
      unfold assetPath
      have hplain : distributionsPath ++ [f.name] ∉ bundleDirectories := by
        simp [bundleDirectories, releaseDistributions, offline, offlineDistributions,
          offlineWheelhouse,
          distributionsPath]
      rw [if_pos ((hdistributions f.name).mpr ⟨f, hf, rfl⟩), regular_download hplain]
      apply find_of_mem h.distinct
      rw [hT]
      exact List.mem_append_left _ (List.mem_map_of_mem hf)

theorem length_sortedSet {names : List PyStr} (h : names.Nodup) :
    (sortedSet names).length = names.length := by
  unfold sortedSet
  rw [List.length_insertionSort, h.dedup]

/-- What was released is accepted: the verifier finds the distributions and the archive,
as many assets as were reported. -/
theorem shipped_accepted {host : Host} {fuel : Nat} {version platformLabel : PyStr} {t u : Nat}
    {r : Bundle}
    (hC : C.Hex) (h : (prepareReleaseBundle P A C host fuel version platformLabel).run t
      = (.ok r, u))
    (hsize : ∀ sums, r.files.find [sumsName] = some sums → sums.length ≤ maxPublicManifestBytes)
    (root : PyStr) :
    ∃ names, verifyReleaseAssets C (r.files.download root) = .ok names ∧ r.offlineArchive ∈ names
    ∧ r.projectWheel ∈ names
      ∧ names.length + 1 = r.publicAssetCount := by
  obtain ⟨_, _, -, h⟩ := timed_bind_ok.mp h
  obtain ⟨_, _, -, h⟩ := timed_bind_ok.mp h
  obtain ⟨i, s, hopen, h⟩ := timed_bind_ok.mp h
  obtain ⟨locked, s', hcheck, h⟩ := timed_bind_ok.mp h
  have hi := openInputs_ok hopen
  obtain ⟨hleft, harchive, hproject, hcount⟩ := writeBundle_left h (hi.mono (Timed.le hcheck))
  obtain ⟨pair, hpair⟩ := openInputs_pair hopen
  have hkinds := distributionPair_kinds hpair hleft.distributions
  have hlast : r.offlineArchive.getLast? = some (cp 0x70) := by
    rw [harchive, show lit ".zip" = lit ".zi" ++ [cp 0x70] from rfl, ← List.append_assoc,
      List.getLast?_concat]
  have hfirst : r.offlineArchive.head? = some (cp 0x61) := by
    rw [harchive]
    rfl
  obtain ⟨assets, hcovered, hnames⟩ := covered_of_left hC hleft hkinds hfirst hlast hsize
  refine ⟨_, assets_exact.mpr ⟨assets, hcovered, rfl⟩, ?_, ?_, ?_⟩
  · rw [mem_sortedSet, hnames.mem_iff]
    exact List.mem_cons_self ..
  · rw [mem_sortedSet, hnames.mem_iff, hproject]
    exact List.mem_cons_of_mem _ (List.mem_map_of_mem hi.project)
  · rw [length_sortedSet hcovered.once, hnames.length_eq, hcount]
    simp

end Written

theorem shipped_accepted_sample : ∃ r u names,
    (prepareReleaseBundle samplePackaging sampleArchives sampleCrypto sampleHost 2 (lit "2.0")
      (lit "linux")).run 0
        = (.ok r, u)
      ∧ verifyReleaseAssets sampleCrypto (r.files.download (lit "release")) = .ok names
      ∧ r.offlineArchive ∈ names ∧ r.projectWheel ∈ names
        ∧ names.length + 1 = r.publicAssetCount := by
  generalize hrun : (prepareReleaseBundle samplePackaging sampleArchives sampleCrypto sampleHost 2
    (lit "2.0")
    (lit "linux")).run 0 = run
  have hsmall : (run.1.toOption.any fun r => (r.files.find [sumsName]).all fun sums =>
      sums.length ≤ maxPublicManifestBytes) = true := by
    rw [← hrun]
    decide +kernel
  obtain ⟨_ | r, u⟩ := run
  · exact absurd hsmall (by simp [Except.toOption])
  · obtain ⟨names, hnames⟩ := shipped_accepted sampleCrypto_hex hrun (fun sums hsums => by
      simpa [Except.toOption, hsums] using hsmall) (lit "release")
    exact ⟨r, u, names, rfl, hnames⟩

end SddGov.Release
