import SddGov.Evidence.Verify

/-!
# Portable verification

A portable package may have lost files of `private/raw`, or the directory.
Deleting them makes the portable verification quieter test by test: a test of a
deleted file is left out, and no other test looks at it (`verify_portable`).

One test could go the other way. A path of the manifest that crosses a symlink
is passed over by the associations, so deleting the link would bring its row
back. A package that verifies has no link in its zone: `_actual_zone_files_at`
reports every entry that is not a single-linked file.
-/

namespace SddGov.Evidence

open SddGov.Effect SddGov.Python
open SddGov.Effect.Check

/-- What is left of a zone: all of it, an opened zone without some of its files, or nothing. -/
inductive Zone.Deleted : Zone → Zone → Prop
  | none (z : Zone) : Zone.Deleted z z
  | files (entries : Entries) (keep : PyStr → Bool) :
    Zone.Deleted (.opened entries) (.opened (entries.filter fun e => keep e.1))
  | directory (entries : Entries) : Zone.Deleted (.opened entries) .missing

/-! ## Reading what is left -/

/-- Looking up among the entries that are kept. -/
theorem find_filter (entries : Entries) (keep : PyStr → Bool) (name : PyStr) :
    Entries.find name (entries.filter fun e => keep e.1) = if keep name then
    entries.find name else none := by
  induction entries with
  | nil => simp [Entries.find]
  | cons e entries ih =>
    unfold Entries.find at ih ⊢
    by_cases hname : e.1 = name
    · by_cases hkeep : keep name = true
      · simp [hname, hkeep]
      · simp only [List.filter_cons, hname, hkeep, if_false, Bool.false_eq_true] at ih ⊢
        exact ih
    · have hne : (e.1 == name) = false := by simpa using hname
      rw [List.find?_cons, hne, List.filter_cons]
      split
      · rw [List.find?_cons, hne]
        exact ih
      · exact ih

variable {raw raw' : Zone}

/-- A file is read as before, or it is missing. -/
theorem readInZone_deleted (h : Zone.Deleted raw raw') (kind : Kind) (name label : PyStr) :
    readInZone kind raw' name label = readInZone kind raw name label
      ∨ readInZone kind raw' name label = .error .missing := by
  cases h with
  | none => exact .inl rfl
  | directory entries => exact .inr rfl
  | files entries keep =>
    show readRegularBytesAt _ name label maxArtifactBytes
      = readRegularBytesAt entries name label maxArtifactBytes
      ∨ readRegularBytesAt _ name label maxArtifactBytes = .error .missing
    unfold readRegularBytesAt
    rw [find_filter]
    by_cases hkeep : keep name = true
    · rw [if_pos hkeep]
      exact .inl rfl
    · rw [if_neg hkeep]
      split
      · exact .inl rfl
      · cases unusableName name with
        | some message => exact .inl rfl
        | none => exact .inr rfl

/-- No component of a path in the zone is a link. -/
def Zone.Linkless : Zone → Prop
  | .missing => True
  | .blocked link => link = false
  | .opened entries => ∀ name, entries.find name ≠ some .symlink

theorem crossesLink_linkless (h : raw.Linkless) (name : PyStr) : crossesLink raw name = false := by
  cases raw with
  | missing => rfl
  | blocked link => exact h
  | opened entries => simpa [crossesLink] using h name

theorem Zone.Deleted.linkless (h : Zone.Deleted raw raw') (hraw : raw.Linkless) :
    raw'.Linkless := by
  cases h with
  | none => exact hraw
  | directory entries => trivial
  | files entries keep =>
    intro name
    rw [find_filter]
    split
    · exact hraw name
    · simp

theorem isLink_linkless (h : raw.Linkless) : raw.isLink = false := by
  cases raw with
  | blocked link => exact h
  | _ => rfl

theorem manifestArtifactPath_deleted {tooLong : PyStr → Bool} (h : Zone.Deleted raw raw')
    (hraw : raw.Linkless) (kind : Kind) (value : Json) :
    manifestArtifactPath tooLong kind raw' value = manifestArtifactPath tooLong kind raw value := by
  unfold manifestArtifactPath
  cases value with
  | str path =>
    dsimp only
    rw [crossesLink_linkless hraw, crossesLink_linkless (h.linkless hraw), isLink_linkless hraw,
      isLink_linkless (h.linkless hraw)]
  | _ => rfl

/-! ## The manifest -/

section Manifest

variable (R : Rules) (tooLong : PyStr → Bool) (manifest : Members)

@[simp] theorem missingArtifact_raw (message : PyStr) :
    missingArtifact true .raw message = pure () := rfl

@[simp] theorem missingArtifact_shareable (portable : Bool) (message : PyStr) :
    missingArtifact portable .shareable message = report message := by
  cases portable <;> rfl

/-- With raw files deleted, the portable check of an artifact reports no more than the whole one
did. -/
theorem checkArtifact_quieter (h : Zone.Deleted raw raw') (m : Members) (relative name : PyStr) :
    Quieter (checkArtifact R true .raw raw' manifest m relative name)
      (checkArtifact R false .raw raw manifest m relative name) := by
  unfold checkArtifact
  rcases readInZone_deleted h .raw name (lit "artifact " ++ relative) with hread | hread
  · rw [hread]
    cases readInZone .raw raw name (lit "artifact " ++ relative) with
    | ok f => exact Quieter.refl _
    | error e =>
      cases e with
      | missing => exact Quieter.nothing _
      | bad message => exact Quieter.refl _
  · rw [hread]
    exact Quieter.nothing _

/-- The same for a row of the manifest. -/
theorem checkRow_quieter (h : Zone.Deleted raw raw') (hraw : raw.Linkless) (expected : List PyStr)
    (index : Nat)
    (row : Json) : Quieter (checkRow R tooLong true .raw raw' manifest expected index row)
      (checkRow R tooLong false .raw raw manifest expected index row) := by
  unfold checkRow
  cases row with
  | obj m =>
    refine Quieter.ite ?_ (Quieter.refl _)
    rw [manifestArtifactPath_deleted h hraw]
    refine Quieter.after _ fun _ => ?_
    cases manifestArtifactPath tooLong .raw raw (get (lit "path") m) with
    | error e => cases e <;> exact Quieter.refl _
    | ok path =>
      refine Quieter.ite (Quieter.refl _) ?_
      exact (checkArtifact_quieter R manifest h m path.1 path.2).bind fun _ => Quieter.refl _
  | _ => exact Quieter.refl _

theorem checkZone_quieter (h : Zone.Deleted raw raw') :
    Quieter (checkZone true .raw raw') (checkZone false .raw raw) := by
  cases h with
  | none =>
    cases raw with
    | missing => exact Quieter.nothing _
    | blocked link => exact Quieter.refl _
    | opened entries => exact Quieter.refl _
  | files entries keep => exact Quieter.nothing _
  | directory entries => exact Quieter.nothing _

/-- A zone without errors and without files that the rows do not name. -/
theorem clean_checkExtras {kind : Kind} {entries : Entries} {expected : List PyStr} {u : Unit} :
    Clean (checkExtras kind (.opened entries) expected) u ↔
      ∀ e ∈ entries, entryError kind.zone e = none ∧ kind.zone ++ lit "/" ++ e.1 ∈ expected := by
  have hextras : ∀ paths : List PyStr,
    (sortedSet (paths.filter fun path => !expected.contains path)).isEmpty = true
      ↔ ∀ path ∈ paths, path ∈ expected := by
    intro paths
    rw [List.isEmpty_iff, List.eq_nil_iff_forall_not_mem]
    simp [mem_sortedSet]
  unfold checkExtras
  simp only [clean_bind, clean_reportAll, clean_reportIf, exists_const, Bool.not_eq_false', hextras]
  unfold actualZoneFiles
  simp only [List.filterMap_eq_nil_iff, List.mem_map, List.mem_filter, Option.isNone_iff_eq_none]
  constructor
  · rintro ⟨herrors, hpaths⟩ e he
    exact ⟨herrors e he, hpaths _ ⟨e, ⟨he, herrors e he⟩, rfl⟩⟩
  · intro h
    refine ⟨fun e he => (h e he).1, ?_⟩
    rintro _ ⟨e, ⟨he, -⟩, rfl⟩
    exact (h e he).2

theorem checkExtras_quieter (h : Zone.Deleted raw raw') (expected : List PyStr) :
    Quieter (checkExtras .raw raw' expected) (checkExtras .raw raw expected) := by
  cases h with
  | none => exact Quieter.refl _
  | directory entries => exact Quieter.nothing _
  | files entries keep =>
    intro _ hclean
    rw [clean_checkExtras] at hclean ⊢
    exact fun e he => hclean e (List.mem_filter.mp he).1

theorem checkRows_quieter (h : Zone.Deleted raw raw') (hraw : raw.Linkless) :
    Quieter (checkRows R tooLong true .raw raw' manifest)
      (checkRows R tooLong false .raw raw manifest) := by
  unfold checkRows
  cases get Kind.raw.text manifest with
  | arr rows =>
    refine (checkZone_quieter h).bind fun _ => ?_
    exact (Quieter.loop (checkRow_quieter R tooLong manifest h hraw) [] 0 rows).bind fun expected =>
      checkExtras_quieter h expected
  | _ => exact Quieter.refl _

/-- The shareable artifacts have to be there in either mode. -/
theorem checkRows_shareable (portable : Bool) (z : Zone) :
    checkRows R tooLong portable .shareable z manifest
      = checkRows R tooLong false .shareable z manifest := by
  have hrow : checkRow R tooLong portable .shareable z manifest
      = checkRow R tooLong false .shareable z manifest := by
    unfold checkRow checkArtifact
    simp only [missingArtifact_shareable]
  unfold checkRows checkZone
  simp only [missingArtifact_shareable, hrow]

theorem verifyManifestArtifacts_quieter {d : Dep} (h : Zone.Deleted d.raw raw')
    (hraw : d.raw.Linkless) :
    Quieter (verifyManifestArtifacts R { d with raw := raw' } manifest true)
      (verifyManifestArtifacts R d manifest false) := by
  unfold verifyManifestArtifacts
  rw [checkRows_shareable]
  exact (checkRows_quieter R d.tooLong manifest h hraw).bind fun _ => Quieter.refl _

/-- A raw zone that verifies is there, and has no link. -/
theorem opened_of_clean {d : Dep} {u : Unit}
    (h : Clean (verifyManifestArtifacts R d manifest false) u) :
    (∃ entries, d.raw = .opened entries) ∧ d.raw.Linkless := by
  unfold verifyManifestArtifacts at h
  obtain ⟨_, hrows, -⟩ := clean_bind.mp h
  unfold checkRows at hrows
  split at hrows
  · obtain ⟨_, hzone, hrows⟩ := clean_bind.mp hrows
    obtain ⟨expected, -, hextras⟩ := clean_bind.mp hrows
    unfold checkZone at hzone
    cases hraw : d.raw with
    | missing =>
      rw [hraw] at hzone
      exact absurd hzone clean_report
    | blocked link =>
      rw [hraw] at hzone
      exact absurd hzone clean_raise
    | opened entries =>
      rw [hraw, clean_checkExtras] at hextras
      refine ⟨⟨entries, rfl⟩, fun name hname => ?_⟩
      unfold Entries.find at hname
      obtain ⟨e, hfind, hlink⟩ := Option.map_eq_some_iff.mp hname
      have herror := (hextras e (List.mem_of_find?_eq_some hfind)).1
      unfold entryError at herror
      rw [hlink] at herror
      split at herror <;> exact absurd herror (by simp)
  · exact absurd hrows clean_report

end Manifest

/-! ## The redaction report -/

section Report

variable (R : Rules) {d : Dep} (h : Zone.Deleted d.raw raw') (hraw : d.raw.Linkless)

include h

theorem checkSource_quieter (label name outputText : PyStr) (redactions : Json) :
    Quieter (checkSource R raw' label name outputText redactions)
      (checkSource R d.raw label name outputText redactions) := by
  unfold checkSource
  rcases readInZone_deleted h .raw name (label ++ lit " raw source") with hread | hread
  · rw [hread]
    exact Quieter.refl _
  · rw [hread]
    exact Quieter.nothing _

/-- The same for an output of the redaction. -/
theorem checkOutput_quieter (label rawName outputName : PyStr) (redactions : Json) :
    Quieter (checkOutput R { d with raw := raw' } label rawName outputName redactions)
      (checkOutput R d label rawName outputName redactions) := by
  unfold checkOutput
  refine Quieter.ite ?_ (Quieter.refl _)
  dsimp only
  split
  · exact Quieter.refl _
  · exact Quieter.refl _
  · split
    · exact Quieter.refl _
    · refine Quieter.after _ fun _ => Quieter.after _ fun _ => ?_
      exact checkSource_quieter R h label rawName _ redactions

include hraw

/-- The same for an associated artifact. -/
theorem checkAssociated_quieter (label : PyStr) (m shareable : Members) (redactions : Json) :
    Quieter (checkAssociated R { d with raw := raw' } label m shareable redactions)
      (checkAssociated R d label m shareable redactions) := by
  have hnames : associatedNames { d with raw := raw' } m shareable
    = associatedNames d m shareable := by
    unfold associatedNames
    dsimp only
    rw [manifestArtifactPath_deleted h hraw]
  unfold checkAssociated
  rw [hnames]
  split
  · exact checkOutput_quieter R h label _ _ redactions
  · exact Quieter.refl _
  · exact Quieter.refl _

/-- The same for a row of the redaction. -/
theorem checkFileRow_quieter (rawRows shareableRows : List (PyStr × Members)) (s : Associations)
    (index : Nat)
    (row : Json) : Quieter (checkFileRow R { d with raw := raw' } rawRows shareableRows s index row)
      (checkFileRow R d rawRows shareableRows s index row) := by
  unfold checkFileRow
  cases row with
  | obj m =>
    refine Quieter.ite ?_ (Quieter.refl _)
    dsimp only
    split
    · refine Quieter.ite (Quieter.refl _) (Quieter.after _ fun _ => ?_)
      split
      · refine Quieter.after _ fun _ => Quieter.after _ fun _ => Quieter.after _ fun _ => ?_
        exact (checkAssociated_quieter R h hraw _ _ _ _).bind fun _ => Quieter.refl _
      · exact Quieter.refl _
    · exact Quieter.refl _
  | _ => exact Quieter.refl _

theorem checkAssociations_quieter (manifest redaction : Members) (files blocked : List Json) :
    Quieter (checkAssociations R { d with raw := raw' } manifest redaction files blocked)
      (checkAssociations R d manifest redaction files blocked) := by
  unfold checkAssociations
  refine Quieter.after _ fun raws => Quieter.after _ fun shareables => ?_
  exact (Quieter.loop (checkFileRow_quieter R h hraw _ _) {} 0 files).bind fun _ => Quieter.refl _

/-- The same for the report. -/
theorem checkReport_quieter (manifest : Members) (redaction : Json) :
    Quieter (checkReport R { d with raw := raw' } manifest redaction)
    (checkReport R d manifest redaction) := by
  unfold checkReport
  refine Quieter.ite (Quieter.refl _) ?_
  refine Quieter.after _ fun members => Quieter.after _ fun _ => Quieter.after _ fun _ => ?_
  unfold verifyRedactionAssociations
  refine Quieter.ite (Quieter.after _ fun _ => ?_) (Quieter.refl _)
  split
  · exact checkAssociations_quieter R h hraw manifest members _ _
  · exact Quieter.refl _
  · exact Quieter.refl _

end Report

/-! ## The package -/

section Package

variable (R : Rules) {d : Dep} (h : Zone.Deleted d.raw raw')

include h in
/-- The evidence of a package that verifies: its zone has no link. -/
theorem checkEvidence_quieter (manifest : Members) :
    Quieter (checkEvidence R { d with raw := raw' } manifest true)
    (checkEvidence R d manifest false) := by
  intro u hclean
  unfold checkEvidence at hclean ⊢
  obtain ⟨_, hcollected, hclean⟩ := clean_bind.mp hclean
  obtain ⟨redaction, hredaction, hclean⟩ := clean_bind.mp hclean
  obtain ⟨_, hreport, hartifacts⟩ := clean_bind.mp hclean
  obtain ⟨-, hraw⟩ := opened_of_clean R manifest hartifacts
  have hreport' := checkReport_quieter R h hraw manifest redaction _ hreport
  have hartifacts' := verifyManifestArtifacts_quieter R manifest h hraw u hartifacts
  exact clean_bind.mpr ⟨_, hcollected, clean_bind.mpr ⟨redaction, hredaction,
    clean_bind.mpr ⟨_, hreport', hartifacts'⟩⟩⟩

include h in
/-- The same for the whole package. -/
theorem checkPackage_quieter (summary manifest : Json) :
    Quieter (checkPackage R { d with raw := raw' } true true summary manifest)
      (checkPackage R d true false summary manifest) := by
  unfold checkPackage
  refine Quieter.after _ fun _ => Quieter.after _ fun manifest => Quieter.after _ fun summary =>
    Quieter.after _ fun workflow => ?_
  split
  · exact Quieter.refl _
  · unfold checkPhase
    refine Quieter.after _ fun _ => Quieter.after _ fun _ => Quieter.after _ fun _ => ?_
    refine Quieter.bind ?_ fun _ => Quieter.refl _
    unfold checkCollected
    exact Quieter.ite (checkEvidence_quieter R h manifest) (Quieter.refl _)

include h in
/-- Both control documents are read alike, and the rest is quieter. -/
theorem verifyControls_portable {summary manifest : Control} {v : Verification}
    (hv : verifyControls R d true false summary manifest = .ok v) (hclean : v.errors = []) :
    ∃ v', verifyControls R { d with raw := raw' } true true summary manifest = .ok v'
    ∧ v'.errors = [] := by
  unfold verifyControls at hv ⊢
  obtain ⟨parsed, hsummary, hv⟩ := except_bind_ok.mp hv
  cases parsed with
  | error message =>
    obtain rfl := Except.ok.inj hv
    exact absurd hclean (by simp)
  | ok summaryJson =>
    obtain ⟨parsed, hmanifest, hv⟩ := except_bind_ok.mp hv
    cases parsed with
    | error message =>
      obtain rfl := Except.ok.inj hv
      exact absurd hclean (by simp)
    | ok manifestJson =>
      obtain ⟨⟨u, errors⟩, hpackage, hv⟩ := except_bind_ok.mp hv
      obtain rfl := Except.ok.inj hv
      obtain rfl : errors = [] := hclean
      have hquiet := checkPackage_quieter R h summaryJson manifestJson u hpackage
      refine ⟨_, except_bind_ok.mpr ⟨_, hsummary, except_bind_ok.mpr ⟨_, hmanifest,
        except_bind_ok.mpr ⟨(u, []), hquiet, rfl⟩⟩⟩, rfl⟩

theorem readControl_clean {overrides : List (PyStr × Bytes)} {name : PyStr} {c : Option Control}
    (hclean : Clean (readControl d overrides name) c) : c.isSome = true := by
  unfold readControl at hclean
  split at hclean
  · obtain ⟨_, hreport, -⟩ := clean_bind.mp hclean
    exact absurd hreport clean_report
  · obtain ⟨_, hreport, -⟩ := clean_bind.mp hclean
    exact absurd hreport clean_report
  · obtain rfl := clean_pure.mp hclean
    rfl

/-- Without an error both control documents have been read. -/
theorem readControls_clean {strict portable : Bool} {overrides : List (PyStr × Bytes)}
    {controls : Option Control × Option Control}
    (hclean : Clean (readControls d strict portable overrides) controls) :
    ∃ summary manifest, controls = (some summary, some manifest) := by
  unfold readControls at hclean
  obtain ⟨_, -, hclean⟩ := clean_bind.mp hclean
  obtain ⟨_, -, hclean⟩ := clean_bind.mp hclean
  obtain ⟨summary, hsummary, hclean⟩ := clean_bind.mp hclean
  obtain ⟨manifest, hmanifest, hclean⟩ := clean_bind.mp hclean
  obtain rfl := clean_pure.mp hclean
  obtain ⟨summary, rfl⟩ := Option.isSome_iff_exists.mp (readControl_clean hsummary)
  obtain ⟨manifest, rfl⟩ := Option.isSome_iff_exists.mp (readControl_clean hmanifest)
  exact ⟨summary, manifest, rfl⟩

include h in
/-- A clean strict verification of a package is clean in portable mode without some raw files. -/
theorem verify_deleted (hclean : verify R d true false = .ok []) :
    verify R { d with raw := raw' } true true = .ok [] := by
  unfold verify at hclean ⊢
  split at hclean
  · next v hv =>
    have herrors : v.errors = [] := Except.ok.inj hclean
    unfold verifyOpen at hv ⊢
    obtain ⟨⟨controls, errors⟩, hcontrols, hv⟩ := except_bind_ok.mp hv
    -- the control documents and the residue are not in a zone
    have hcontrols' : (readControls { d with raw := raw' } true true [] : Except Exn
      (_ × List PyStr))
        = .ok (controls, errors) := hcontrols
    rw [hcontrols']
    dsimp only [Bind.bind, Except.bind] at hv ⊢
    split at hv
    · obtain ⟨v', hv', herrors'⟩ := verifyControls_portable R h hv herrors
      rw [hv']
      exact congrArg Except.ok herrors'
    · next hmissing =>
      obtain rfl := Except.ok.inj hv
      obtain rfl : errors = [] := herrors
      obtain ⟨summary, manifest, hread⟩ := readControls_clean hcontrols
      obtain ⟨hsummary, hmanifest⟩ := Prod.mk.inj hread
      exact (hmissing summary manifest rfl hsummary hmanifest).elim
  · split at hclean
    · exact absurd (Except.ok.inj hclean) (by simp)
    · exact absurd hclean (by simp)

end Package

/-- Portable verification is monotone: a package that verifies strictly verifies strictly and
portably, and so does what is left of it after any files of `private/raw` were deleted. -/
theorem portable_monotone {R : Rules} {d : Dep} (h : verify R d true false = .ok []) :
    verify R d true true = .ok []
      ∧ ∀ raw', Zone.Deleted d.raw raw' → verify R { d with raw := raw' } true true = .ok [] :=
  ⟨verify_deleted R (.none d.raw) h, fun _ hdeleted => verify_deleted R hdeleted h⟩

/-! ## A package with one artifact -/

def sampleRules : Rules where
  crypto := ⟨fun _ => List.replicate 64 (cp 0x30), fun _ _ _ => false⟩
  lower := id
  str
    | .str s => s
    | _ => []
  schemaErrors _ := .ok []
  redactText s := .ok (s, [])
  limit _ := 900

def sampleText (text : String) : Entry := .file ⟨(utf8Encode (lit text)).getD [], 1, 1, 1, 0⟩

def sampleDocument (m : Members) : Entry := .file ⟨(canonicalBytes (.obj m)).getD [], 1, 1, 1, 0⟩

def sampleDigest : Json := .str (List.replicate 64 (cp 0x30))

def sampleArtifact (path : String) (shareable : Bool) : Members :=
  [(lit "path", .str (lit path)), (lit "sha256", sampleDigest), (lit "size", .int 3),
    (lit "shareable", .bool shareable)]

/-- A package in the proof phase with one log and its redaction. -/
def sampleDep : Dep where
  documents :=
    [(lit "summary.yaml", sampleDocument ([(lit "dep_id", .str (lit "DEP-1")), (lit "workflow", .obj
        [(lit "phase", .str (lit "proof")),
          (lit "history", .arr (phases.map fun phase => .obj [(lit "phase", .str phase)]))])]
        ++ ["issue", "risk_level", "expected_behavior", "actual_behavior", "environment"].map
          fun name => (lit name, .str (lit name)))),
      (lit "manifest.json", sampleDocument [(lit "schema_version", .str (lit "1.1")),
        (lit "dep_id", .str (lit "DEP-1")),
        (lit "raw", .arr [.obj (sampleArtifact "private/raw/a.log" false
          ++ [(lit "collector", .str (lit "terminal")), (lit "source_suffix", .str (lit ".log")),
            (lit "media_type", .str (lit "text/plain; charset=utf-8")),
              (lit "collected_at", .str (lit "now"))])]),
        (lit "shareable", .arr [.obj (sampleArtifact "shareable/artifacts/a.log" true)])]),
      (lit "redaction-report.json", sampleDocument [(lit "schema_version", .str (lit "1.0")),
        (lit "dep_id", .str (lit "DEP-1")), (lit "generated_at", .str (lit "now")),
          (lit "blocked", .arr []),
        (lit "totals", .obj []), (lit "files", .arr [.obj [(lit "source", .str (lit "a.log")),
          (lit "output", .str (lit "a.log")), (lit "source_sha256", sampleDigest),
            (lit "output_sha256", sampleDigest),
          (lit "source_size", .int 3), (lit "output_size", .int 3),
            (lit "redactions", .obj [])]])])]
    ++ ((requiredDocs 4).filter fun name => name != lit "redaction-report.json").map
      fun name => (name, sampleText "done")
  raw := .opened [(lit "a.log", sampleText "red")]
  shareable := .opened [(lit "a.log", sampleText "red")]

theorem portable_monotone_sample : verify sampleRules sampleDep true true = .ok []
    ∧ verify sampleRules { sampleDep with raw := .missing } true true = .ok []
    ∧ verify sampleRules { sampleDep with raw := .opened [] } true true = .ok [] := by
  have hclean : verify sampleRules sampleDep true false = .ok [] := by decide +kernel
  obtain ⟨hself, hdeleted⟩ := portable_monotone hclean
  exact ⟨hself, hdeleted _ (.directory _), hdeleted _ (.files _ fun _ => false)⟩

end SddGov.Evidence
