import SddGov.Effect.Ends
import SddGov.Evidence.Portable
import SddGov.Redaction.Stream

/-!
# Verification of an untrusted package

The documents of a package may hold any JSON values. `verify` catches `OSError`
and `ValueError`; a document that nests too deep, and a value of a type that the
code does not expect where it uses it, raise other exceptions. `Handled` is what
the documents have to be, in the order in which the code uses them: nothing is
asked of what comes after the place where a verification stops with a caught
exception (`verify_returns_iff`).
-/

namespace SddGov.Evidence

open SddGov.Effect SddGov.Python
open SddGov.Effect.Check (Ends Through NeverRaises lift loop ends_bind ends_pure ends_report
  ends_reportIf
  ends_reportAll ends_raise ends_lift_ok ends_lift_error ends_loop ends_each
  through_forall)

/-! ## The redaction of a text -/

/-- `redact_text`, for the matches of `RULES` and of the two patterns behind them. -/
def redactText (P : Redaction.Patterns) (rules : List (PyStr × (PyStr → PyStr × Nat)))
    (text : PyStr) :
    Except Exn (PyStr × Members) :=
  let redacted := Redaction.substitute rules text
  if P.holdsProviderCredential redacted.1 then
    .error (valueError "unredacted known provider credential identifier")
  else if P.holdsLocalUserPath redacted.1 then .error
    (valueError "unredacted absolute user workspace path")
  else .ok (redacted.1, redacted.2.foldl (fun counts c => setMember c.1 (.int c.2) counts) [])

/-- `redact_text` raises `ValueError` only. -/
theorem redactText_caught {P : Redaction.Patterns} {rules : List (PyStr × (PyStr → PyStr × Nat))}
    {text : PyStr}
    {e : Exn} (h : redactText P rules text = .error e) : e.isOsOrValue = true := by
  unfold redactText at h
  dsimp only at h
  split at h
  · rw [← Except.error.inj h]
    rfl
  · split at h
    · rw [← Except.error.inj h]
      rfl
    · exact absurd h (by simp)

/-! ## What the documents have to be -/

/-- What `json.loads` makes of a document that is UTF-8. -/
def loaded (limit : Nat) (raw : Bytes) : Option (Except JsonError Json) :=
  (utf8Decode raw).map (loads limit)

/-- The value of a document. -/
def document (limit : Nat) (raw : Bytes) : Option Json :=
  match loaded limit raw with
  | some (.ok v) => some v
  | _ => none

/-- The document nests too deep. -/
def TooDeep (limit : Nat) (raw : Bytes) : Prop := loaded limit raw = some (.error .recursion)

/-- The document has an integer of too many digits. -/
def TooLong (limit : Nat) (raw : Bytes) : Prop := loaded limit raw = some (.error .digits)

/-- The value has a hash. -/
def isHashable : Json → Bool
  | .arr _ => false
  | .obj _ => false
  | _ => true

/-- A file in a zone, where it can be read. -/
def fileIn (kind : Kind) (z : Zone) (name : PyStr) :
    Option FileEntry := (readInZone kind z name []).toOption

def Zone.isBlocked : Zone → Bool
  | .blocked _ => true
  | _ => false

section Handled

variable (R : Rules) (tooLong : PyStr → Bool)

/-- The path of a row and its last component, where its file is looked at. -/
def inspected (kind : Kind) (z : Zone) (seen : List PyStr) (m : Members) : Option (PyStr × PyStr) :=
  match manifestArtifactPath tooLong kind z (get (lit "path") m) with
  | .ok path => if seen.contains path.1 then none else some path
  | .error _ => none

/-- The fields of a row with the fields of a raw row: two of them are looked up in sets, and the
suffix is that of a file whose media type is detected. -/
structure FieldsHandled (z : Zone) (seen : List PyStr) (m : Members) : Prop where
  collector : isHashable (get (lit "collector") m) = true
  mediaType : isHashable (get (lit "media_type") m) = true
  suffix : ∀ path f, inspected tooLong .raw z seen m = some path → fileIn .raw z path.2 = some f →
    ∃ suffix, get (lit "source_suffix") m = .str suffix
      ∧ (R.lower suffix = lit ".har" ∨ ¬ TooDeep (R.limit .artifact) f.content)

/-- `lstat` finds the path of the row too long, which is a caught exception. -/
def PathFails (kind : Kind) (z : Zone) (m : Members) : Prop :=
  manifestArtifactPath tooLong kind z (get (lit "path") m) = .error .system

/-- The path of a row is too long, or its file has an integer of too many digits, which are caught
exceptions. -/
def FieldsStop (z : Zone) (seen : List PyStr) (m : Members) : Prop :=
  PathFails tooLong .raw z m
    ∨ ∃ path f suffix, inspected tooLong .raw z seen m = some path ∧ fileIn .raw z path.2 = some f
      ∧ get (lit "source_suffix") m = .str suffix ∧ R.lower suffix ≠ lit ".har"
      ∧ TooLong (R.limit .artifact) f.content

/-- The members of a row that has the fields of its kind. -/
def rowOf (kind : Kind) : Json → Option Members
  | .obj m => if keysEq m (rowContract kind) then some m else none
  | _ => none

def RowHandled (z : Zone) (seen : List PyStr) (row : Json) : Prop :=
  ∀ m ∈ rowOf .raw row, FieldsHandled R tooLong z seen m

def RowStops (z : Zone) (seen : List PyStr) (row : Json) : Prop :=
  ∃ m ∈ rowOf .raw row, FieldsStop R tooLong z seen m

/-- Of a shareable row only the path may stop the verification. -/
def SharedStops (z : Zone) (row : Json) : Prop :=
    ∃ m ∈ rowOf .shareable row, PathFails tooLong .shareable z m

/-- The paths of the rows up to this one. -/
def rowNext (kind : Kind) (z : Zone) (seen : List PyStr) (row : Json) : List PyStr :=
  match (rowOf kind row).bind (inspected tooLong kind z seen) with
  | some path => path.1 :: seen
  | none => seen

/-- The raw rows of the manifest, then the rest. -/
def RawHandled (z : Zone) (manifest : Members) (rest : Prop) : Prop :=
  match get (lit "raw") manifest with
  | .arr rows => z.isBlocked = false →
    Through (RowHandled R tooLong z) (RowStops R tooLong z) (rowNext tooLong .raw z)
      (fun _ => rest) [] rows
  | _ => rest

/-- The shareable rows do not stop the verification. -/
def SharedRead (z : Zone) (manifest : Members) : Prop :=
  ∀ rows, get (lit "shareable") manifest = .arr rows →
    z.isBlocked = false ∧ ∀ row ∈ rows, ¬ SharedStops tooLong z row

/-- Both zones, then the rest. -/
def ArtifactsHandled (d : Dep) (manifest : Members) (rest : Prop) : Prop :=
  RawHandled R d.tooLong d.raw manifest (SharedRead d.tooLong d.shareable manifest → rest)

/-- The text of a file in a zone. -/
def textIn (kind : Kind) (z : Zone) (name : PyStr) : Option PyStr :=
  (fileIn kind z name).bind fun f => utf8Decode f.content

/-- The texts that are redacted for an association. -/
def redactedTexts (d : Dep) (raw shareable : Members) : List PyStr :=
  match associatedNames d raw shareable with
  | .ok (rawName, outputName) =>
    if textSuffixes.contains (R.lower (suffixOf outputName)) then
      match textIn .shareable d.shareable outputName with
      | some output => output :: (textIn .raw d.raw rawName).toList
      | none => []
    else []
  | .error _ => []

/-- The redaction refuses a text, which is a caught exception. -/
def Refused (texts : List PyStr) : Prop := ∃ text ∈ texts, ∃ e, R.redactText text = .error e

/-- The fields and the two names of a row of `files` that is no duplicate. -/
def accepted (s : Associations) : Json → Option (Members × PyStr × PyStr)
  | .obj m =>
    if keysEq m fileFields then
      match bareName? (get (lit "source") m), bareName? (get (lit "output") m) with
      | some source, some output =>
        if s.sources.contains source || s.outputs.contains output then none
          else some (m, source, output)
      | _, _ => none
    else none
  | _ => none

/-- The rows of the manifest that an accepted row is about. -/
def associated (rawRows shareableRows : List (PyStr × Members)) (source output : PyStr) :
    Option (Members × Members) :=
  match findRow source rawRows, findRow output shareableRows with
  | some raw, some shareable => some (raw, shareable)
  | _, _ => none

def FileStops (d : Dep) (rawRows shareableRows : List (PyStr × Members)) (s : Associations)
    (row : Json) : Prop :=
  ∃ a ∈ accepted s row, ∃ rows ∈ associated rawRows shareableRows a.2.1 a.2.2,
    associatedNames d rows.1 rows.2 = .error .system ∨ Refused R (redactedTexts R d rows.1 rows.2)

def fileNext (rawRows shareableRows : List (PyStr × Members)) (s : Associations) (row : Json) :
    Associations :=
  match accepted s row with
  | none => s
  | some (m, source, output) =>
    match associated rawRows shareableRows source output with
    | none => ⟨source :: s.sources, output :: s.outputs, s.totals⟩
    | some _ => ⟨source :: s.sources, output :: s.outputs,
        addCounts s.totals ((counts? (get (lit "redactions") m)).getD [])⟩

/-- The redaction report: where its contract is kept, the rows of the manifest are gone through. -/
def AssociationsHandled (d : Dep) (manifest redaction : Members) (rest : Prop) : Prop :=
  if keysEq redaction reportFields && pyEq (get (lit "schema_version") redaction)
    (.str (lit "1.0")) then
    match get (lit "files") redaction, get (lit "blocked") redaction with
    | .arr files, .arr _ => ∃ raw shareable, iterate
        (getOr (lit "raw") (.arr []) manifest) = .ok raw
        ∧ iterate (getOr (lit "shareable") (.arr []) manifest) = .ok shareable
        ∧ Through (fun _ _ => True) (FileStops R d (rowsByName raw) (rowsByName shareable))
          (fileNext (rowsByName raw) (rowsByName shareable)) (fun _ => rest) {} files
    | _, _ => rest
  else rest

/-- The bytes of the redaction report, where they can be read. -/
def reportBytes (d : Dep) : Option Bytes :=
  (readRegularBytesAt d.documents (lit "redaction-report.json")
    (lit "machine-readable document " ++ lit "redaction-report.json") maxControlBytes).toOption.map
      FileEntry.content

/-- The redaction report is `null` or an object. -/
def ReportHandled (d : Dep) (manifest : Members) (rest : Prop) : Prop :=
  match reportBytes d with
  | none => rest
  | some raw => ¬ TooDeep (R.limit .report) raw ∧
    match document (R.limit .report) raw with
    | none => rest
    | some .null => rest
    | some (.obj redaction) => AssociationsHandled R d manifest redaction rest
    | some _ => False

/-- The attachments of the summary and the shareable rows are sequences, and the paths of the
objects in them have a hash. -/
def AttachmentsHandled (summary manifest : Members) : Prop :=
  ∃ attachments rows, iterate (getOr (lit "attachments") (.arr []) summary) = .ok attachments
    ∧ iterate (getOr (lit "shareable") (.arr []) manifest) = .ok rows
    ∧ ∀ m, .obj m ∈ rows ++ attachments → isHashable (get (lit "path") m) = true

/-- The collected evidence where it is looked at, then the attachments. -/
def PhaseHandled (d : Dep) (strict : Bool) (summary manifest : Members) (phase : Nat) : Prop :=
  if 1 ≤ phase || strict then
    ReportHandled R d manifest (ArtifactsHandled R d manifest (AttachmentsHandled summary manifest))
  else AttachmentsHandled summary manifest

/-- The number of the phase the workflow is in. -/
def phaseOf (workflow : Members) : Option Nat :=
  phases.findIdx? fun name => pyEq (get (lit "phase") workflow) (.str name)

/-- The two control documents are objects; so is the workflow, where there is one; and the version
of a manifest with the right fields has a hash. -/
def PackageHandled (d : Dep) (strict : Bool) (summary manifest : Json) : Prop :=
  ∃ s m workflow, summary = .obj s ∧ manifest = .obj m
    ∧ (keysEq m (["schema_version", "dep_id", "raw", "shareable"].map lit) = true →
      isHashable (get (lit "schema_version") m) = true)
    ∧ getOr (lit "workflow") (.obj []) s = .obj workflow
    ∧ ∀ phase, phaseOf workflow = some phase → PhaseHandled R d strict s m phase

/-- What a package has to be: where both control documents are read, neither nests too deep, and the
package is one that the code can go through. -/
def Handled (d : Dep) (strict portable : Bool) : Prop :=
  ∀ summary manifest, readControls d strict portable [] = .ok ((some summary, some manifest), []) →
    ¬ TooDeep (R.limit .control) summary.bytes ∧ ∀ s,
      document (R.limit .control) summary.bytes = some s →
      ¬ TooDeep (R.limit .control) manifest.bytes ∧ ∀ m,
        document (R.limit .control) manifest.bytes = some m →
        PackageHandled R d strict s m

end Handled

/-! ## Reading -/

theorem ends_member {v : Json} {names : List PyStr} {Q : Bool → Prop} {P : Prop}
    (hQ : ∀ b, Q b ↔ P) :
    Ends Exn.isOsOrValue (lift (memberOfSet v names) : Checked Bool) Q ↔
    isHashable v = true ∧ P := by
  cases v with
  | arr xs => simp [memberOfSet, isHashable, Exn.isOsOrValue]
  | obj m => simp [memberOfSet, isHashable, Exn.isOsOrValue]
  | _ => simp [memberOfSet, isHashable, hQ]

theorem iterate_error {v : Json} {e : Exn} (h : iterate v = .error e) : e = .type := by
  cases v with
  | arr xs => exact absurd h (by simp [iterate])
  | obj m => exact absurd h (by simp [iterate])
  | str s => exact absurd h (by simp [iterate])
  | _ => exact (Except.error.inj h).symm

/-- The label of a read is in its errors only. -/
theorem readRegularBytesAt_label (entries : Entries) (name label label' : PyStr) (maxBytes : Nat) :
    (readRegularBytesAt entries name label maxBytes).toOption
      = (readRegularBytesAt entries name label' maxBytes).toOption := by
  unfold readRegularBytesAt
  by_cases hname : name = [] ∨ nameOf name ≠ name
  · rw [if_pos hname, if_pos hname]
    rfl
  · rw [if_neg hname, if_neg hname]
    cases unusableName name with
    | some message => rfl
    | none =>
      cases entries.find name with
      | none => rfl
      | some entry =>
        cases entry with
        | file f =>
          dsimp only
          by_cases hlinks : f.links ≠ 1
          · rw [if_pos hlinks, if_pos hlinks]
            rfl
          · rw [if_neg hlinks, if_neg hlinks]
            by_cases hsize : maxBytes < f.content.length
            · rw [if_pos hsize, if_pos hsize]
              rfl
            · rw [if_neg hsize, if_neg hsize]
        | _ => rfl

theorem fileIn_eq (kind : Kind) (z : Zone) (name label : PyStr) :
    fileIn kind z name = (readInZone kind z name label).toOption := by
  unfold fileIn readInZone
  cases openZone kind.zone z with
  | error e => rfl
  | ok entries => exact readRegularBytesAt_label entries name [] label maxArtifactBytes

section Artifacts

variable {R : Rules} {tooLong : PyStr → Bool} {z : Zone} {manifest m : Members}

/-- Where the check of a media type ends: the text must not nest too deep, unless the suffix is that
of a HAR file. -/
theorem ends_mediaType {suffix : PyStr} {raw : Bytes} {Q : PyStr → Prop} {P : Prop}
    (hQ : ∀ t, Q t ↔ P) :
    Ends Exn.isOsOrValue (lift (artifactMediaType R suffix raw) : Checked PyStr) Q ↔
      (R.lower suffix = lit ".har" ∨ ¬ TooDeep (R.limit .artifact) raw)
        ∧ (¬ (R.lower suffix ≠ lit ".har" ∧ TooLong (R.limit .artifact) raw) → P) := by
  unfold artifactMediaType
  dsimp only
  by_cases hhar : R.lower suffix = lit ".har"
  · rw [if_pos hhar, ends_lift_ok, hQ]
    simp [hhar]
  · rw [if_neg hhar]
    unfold parsedOrNone TooDeep TooLong loaded
    cases utf8Decode raw with
    | none => simp [Bind.bind, Except.bind, hQ]
    | some text =>
      cases hload : loads (R.limit .artifact) text with
      | ok v => simp [Bind.bind, Except.bind, hQ, hhar, hload]
      | error e =>
        cases e with
        | decode => simp [Bind.bind, Except.bind, hQ, hhar, hload]
        | digits => simp [Bind.bind, Except.bind, hhar, hload, Exn.ofJson, Exn.isOsOrValue]
        | recursion => simp [Bind.bind, Except.bind, hhar, hload, Exn.ofJson, Exn.isOsOrValue]

theorem ends_checkRawFields {label : PyStr} {Q : Unit → Prop} :
    Ends Exn.isOsOrValue (checkRowFields R .raw label m) Q ↔
      (isHashable (get (lit "collector") m) = true ∧ isHashable (get (lit "media_type") m) = true)
      ∧ Q () := by
  unfold checkRowFields checkRawFields
  simp only [if_true, ends_bind, ends_reportIf]
  rw [ends_member (P := isHashable (get (lit "media_type") m) = true ∧ Q ()) fun _ =>
    ends_member fun _ => Iff.rfl,
    and_assoc]

/-- Where the check of a raw artifact's content ends. -/
theorem ends_checkMediaType {relative : PyStr} {f : FileEntry} {Q : Unit → Prop} :
    Ends Exn.isOsOrValue (checkContent R .raw manifest m relative f) Q ↔
      (∃ suffix, get (lit "source_suffix") m = .str suffix
        ∧ (R.lower suffix = lit ".har" ∨ ¬ TooDeep (R.limit .artifact) f.content))
      ∧ (¬ (∃ suffix, get (lit "source_suffix") m = .str suffix ∧ R.lower suffix ≠ lit ".har"
        ∧ TooLong (R.limit .artifact) f.content)
        → Q ()) := by
  unfold checkContent checkMediaType
  simp only [if_true, ends_bind, ends_reportIf]
  cases get (lit "source_suffix") m with
  | str suffix =>
    dsimp only
    simp only [ends_bind, ends_reportIf]
    rw [ends_mediaType fun _ => Iff.rfl]
    simp
  | _ => simp [Exn.isOsOrValue]

/-- Where the check of a raw artifact ends. -/
theorem ends_checkArtifact {portable : Bool} {relative name : PyStr} {Q : Unit → Prop} :
    Ends Exn.isOsOrValue (checkArtifact R portable .raw z manifest m relative name) Q ↔
      (∀ f, fileIn .raw z name = some f →
        ∃ suffix, get (lit "source_suffix") m = .str suffix
        ∧ (R.lower suffix = lit ".har" ∨ ¬ TooDeep (R.limit .artifact) f.content))
      ∧ (¬ (∃ f, fileIn .raw z name = some f ∧ ∃ suffix, get (lit "source_suffix") m = .str suffix
          ∧ R.lower suffix ≠ lit ".har" ∧ TooLong (R.limit .artifact) f.content) → Q ()) := by
  unfold checkArtifact
  rw [fileIn_eq .raw z name (lit "artifact " ++ relative)]
  rcases readInZone .raw z name (lit "artifact " ++ relative) with e | f
  · cases e with
    | missing => simp [missingArtifact, Except.toOption]
    | bad message => simp [Except.toOption]
  · dsimp only
    rw [ends_checkMediaType]
    simp [Except.toOption]

/-- The condition on a row whose file is inspected. -/
theorem fieldsHandled_some {seen : List PyStr} {path : PyStr × PyStr}
    (hsome : inspected tooLong .raw z seen m = some path) :
    FieldsHandled R tooLong z seen m ↔
      (isHashable (get (lit "collector") m) = true ∧ isHashable (get (lit "media_type") m) = true)
      ∧ ∀ f, fileIn .raw z path.2 = some f →
        ∃ suffix, get (lit "source_suffix") m = .str suffix
        ∧ (R.lower suffix = lit ".har" ∨ ¬ TooDeep (R.limit .artifact) f.content) := by
  constructor
  · intro h
    exact ⟨⟨h.collector, h.mediaType⟩, fun f => h.suffix path f hsome⟩
  · rintro ⟨⟨hcollector, hmedia⟩, hsuffix⟩
    refine ⟨hcollector, hmedia, fun path' f hpath hfile => ?_⟩
    obtain rfl := Option.some.inj (hsome.symm.trans hpath)
    exact hsuffix f hfile

/-- A path that is inspected is not too long. -/
theorem not_pathFails {kind : Kind} {seen : List PyStr} {path : PyStr × PyStr}
    (hsome : inspected tooLong kind z seen m = some path) : ¬ PathFails tooLong kind z m := by
  intro hfails
  unfold inspected at hsome
  rw [show manifestArtifactPath tooLong kind z (get (lit "path") m) = .error .system from hfails]
    at hsome
  exact absurd hsome (by simp)

/-- When such a row is the last one. -/
theorem fieldsStop_some {seen : List PyStr} {path : PyStr × PyStr}
    (hsome : inspected tooLong .raw z seen m = some path) :
    FieldsStop R tooLong z seen m ↔ ∃ f, fileIn .raw z path.2 = some f
      ∧ ∃ suffix, get (lit "source_suffix") m = .str suffix
        ∧ R.lower suffix ≠ lit ".har" ∧ TooLong (R.limit .artifact) f.content := by
  constructor
  · rintro (hfails | ⟨path', f, suffix, hpath, hfile, hsuffix, hstop⟩)
    · exact absurd hfails (not_pathFails hsome)
    · obtain rfl := Option.some.inj (hsome.symm.trans hpath)
      exact ⟨f, hfile, suffix, hsuffix, hstop⟩
  · rintro ⟨f, hfile, suffix, hsuffix, hstop⟩
    exact .inr ⟨path, f, suffix, hsome, hfile, hsuffix, hstop⟩

/-- A row whose path is not inspected stops where its path is too long. -/
theorem fieldsStop_none {seen : List PyStr} (hnone : inspected tooLong .raw z seen m = none) :
    FieldsStop R tooLong z seen m ↔ PathFails tooLong .raw z m := by
  constructor
  · rintro (hfails | ⟨path, f, suffix, hpath, -⟩)
    · exact hfails
    · exact absurd (hnone.symm.trans hpath) (by simp)
  · exact .inl

/-- One raw row. -/
theorem ends_checkRow {portable : Bool} {seen : List PyStr} {index : Nat} {row : Json}
    {Q : List PyStr → Prop} :
    Ends Exn.isOsOrValue (checkRow R tooLong portable .raw z manifest seen index row) Q ↔
      RowHandled R tooLong z seen row
      ∧ (¬ RowStops R tooLong z seen row → Q (rowNext tooLong .raw z seen row)) := by
  -- a row of another shape is reported and left alone
  have hskipped (hnone : rowOf .raw row = none) :
      (RowHandled R tooLong z seen row
        ∧ (¬ RowStops R tooLong z seen row → Q (rowNext tooLong .raw z seen row))) ↔ Q seen := by
    simp [RowHandled, RowStops, rowNext, hnone]
  cases row with
  | obj m =>
    unfold checkRow
    dsimp only
    by_cases hkeys : keysEq m (rowContract .raw) = true
    · have hrow : rowOf .raw (.obj m) = some m := by simp [rowOf, hkeys]
      rw [if_pos hkeys, ends_bind, ends_checkRawFields]
      unfold RowHandled RowStops rowNext
      rw [hrow, Option.bind_some]
      -- no file is looked at, so nothing is asked of the suffix
      have hfields (hnone : inspected tooLong .raw z seen m = none) :
        ((∀ m' ∈ some m, FieldsHandled R tooLong z seen m')
          ∧ (¬ (∃ m' ∈ some m, FieldsStop R tooLong z seen m') → Q seen)) ↔
          (isHashable (get (lit "collector") m) = true ∧ isHashable
            (get (lit "media_type") m) = true)
            ∧ (¬ PathFails tooLong .raw z m → Q seen) := by
        have hstop := fieldsStop_none (R := R) hnone
        constructor
        · rintro ⟨h, hq⟩
          have hm := h m rfl
          exact ⟨⟨hm.collector, hm.mediaType⟩, fun hpath => hq (by simpa [hstop] using hpath)⟩
        · rintro ⟨⟨hcollector, hmedia⟩, hq⟩
          refine ⟨?_, fun hnot => hq fun hpath => hnot ⟨m, rfl, hstop.mpr hpath⟩⟩
          rintro m' heq
          obtain rfl := Option.some.inj heq
          exact ⟨hcollector, hmedia, by simp [hnone]⟩
      cases hpath : manifestArtifactPath tooLong .raw z (get (lit "path") m) with
      | error e =>
        have hnone : inspected tooLong .raw z seen m = none := by simp [inspected, hpath]
        rw [hnone, hfields hnone]
        unfold PathFails
        rw [hpath]
        cases e with
        | bad message => simp
        | system => simp [Exn.isOsOrValue]
      | ok path =>
        obtain ⟨relative, name⟩ := path
        have hfails : ¬ PathFails tooLong .raw z m := by simp [PathFails, hpath]
        dsimp only
        by_cases hseen : seen.contains relative = true
        · have hnone : inspected tooLong .raw z seen m = none := by
            simp only [inspected, hpath, hseen, if_true]
          rw [if_pos hseen, hnone, hfields hnone]
          simp [hfails]
        · have hsome : inspected tooLong .raw z seen m = some (relative, name) := by
            simp only [inspected, hpath]
            rw [if_neg hseen]
          rw [if_neg hseen, ends_bind, ends_checkArtifact, hsome]
          have hhandled := fieldsHandled_some (R := R) hsome
          have hstops := fieldsStop_some (R := R) hsome
          simp only [Option.mem_some_iff, forall_eq', exists_eq_left', hhandled, hstops,
            ends_pure, and_assoc]
    · rw [hskipped (by simp [rowOf, hkeys]), if_neg hkeys]
      simp
  | _ =>
    rw [hskipped rfl]
    simp [checkRow]

theorem neverRaises_sharedArtifact (portable : Bool) (relative name : PyStr) :
    NeverRaises (checkArtifact R portable .shareable z manifest m relative name) := by
  unfold NeverRaises checkArtifact
  split
  · simp [missingArtifact]
  · simp
  · simp [checkContent]

/-- One shareable row. -/
theorem ends_sharedRow {portable : Bool} {seen : List PyStr} {index : Nat} {row : Json}
    {Q : List PyStr → Prop} :
    Ends Exn.isOsOrValue (checkRow R tooLong portable .shareable z manifest seen index row) Q ↔
      True ∧ (¬ SharedStops tooLong z row → Q (rowNext tooLong .shareable z seen row)) := by
  rw [true_and]
  have hskipped (hnone : rowOf .shareable row = none) :
      (¬ SharedStops tooLong z row → Q (rowNext tooLong .shareable z seen row)) ↔ Q seen := by
    simp [SharedStops, rowNext, hnone]
  cases row with
  | obj m =>
    unfold checkRow
    dsimp only
    by_cases hkeys : keysEq m (rowContract .shareable) = true
    · have hrow : rowOf .shareable (.obj m) = some m := by simp [rowOf, hkeys]
      rw [if_pos hkeys]
      simp only [checkRowFields, reduceCtorEq, if_false, ends_bind, ends_reportIf]
      unfold SharedStops rowNext PathFails inspected
      rw [hrow, Option.bind_some]
      cases hpath : manifestArtifactPath tooLong .shareable z (get (lit "path") m) with
      | error e =>
        cases e with
        | bad message => simp [hpath]
        | system => simp [hpath, Exn.isOsOrValue]
      | ok path =>
        dsimp only
        by_cases hseen : seen.contains path.1 = true
        · rw [if_pos hseen, if_pos hseen]
          simp [hpath]
        · rw [if_neg hseen, if_neg hseen, ends_bind]
          simp only [ends_pure]
          rw [(neverRaises_sharedArtifact portable path.1 path.2).ends]
          simp [hpath]
    · rw [hskipped (by simp [rowOf, hkeys]), if_neg hkeys]
      simp
  | _ =>
    rw [hskipped rfl]
    simp [checkRow]

theorem ends_checkZone {portable : Bool} {kind : Kind} {Q : Unit → Prop} :
    Ends Exn.isOsOrValue (checkZone portable kind z) Q ↔ (z.isBlocked = false → Q ()) := by
  unfold checkZone
  cases z with
  | missing => simp [openZone, missingArtifact, Zone.isBlocked]
  | blocked link => simp [openZone, Zone.isBlocked, Exn.isOsOrValue]
  | opened entries => simp [openZone, Zone.isBlocked]

theorem neverRaises_checkExtras (kind : Kind) (expected : List PyStr) :
    NeverRaises (checkExtras kind z expected) := by
  unfold NeverRaises checkExtras
  cases z with
  | opened entries => simp
  | _ => simp

end Artifacts

/-- The rows of both kinds. -/
theorem ends_artifacts {R : Rules} {d : Dep} {manifest : Members} {portable : Bool} {P : Prop} :
    Ends Exn.isOsOrValue (verifyManifestArtifacts R d manifest portable) (fun _ => P) ↔
      ArtifactsHandled R d manifest P := by
  unfold verifyManifestArtifacts ArtifactsHandled RawHandled
  rw [ends_bind]
  have hshareable : Ends Exn.isOsOrValue
      (checkRows R d.tooLong portable .shareable d.shareable manifest) (fun _ => P) ↔
      (SharedRead d.tooLong d.shareable manifest → P) := by
    unfold checkRows SharedRead
    rw [show Kind.shareable.text = lit "shareable" from rfl]
    cases get (lit "shareable") manifest with
    | arr rows =>
      dsimp only
      have hloop := ends_loop (f := checkRow R d.tooLong portable .shareable d.shareable manifest)
        fun _ _ _ _ => ends_sharedRow
      rw [ends_bind, ends_checkZone, ends_bind, hloop]
      simp only [(neverRaises_checkExtras _ _).ends, through_forall]
      simp only [Json.arr.injEq, forall_eq', and_imp]
    | _ => simp
  simp only [hshareable]
  unfold checkRows
  rw [show Kind.raw.text = lit "raw" from rfl]
  cases get (lit "raw") manifest with
  | arr rows =>
    dsimp only
    have hloop := ends_loop (f := checkRow R d.tooLong portable .raw d.raw manifest) fun _ _ _ _ =>
      ends_checkRow
    rw [ends_bind, ends_checkZone, ends_bind, hloop]
    simp only [(neverRaises_checkExtras _ _).ends]
  | _ => simp

/-! ## The redaction report -/

section Report

variable {R : Rules} (hredact : ∀ text e, R.redactText text = .error e → e.isOsOrValue = true)
    {d : Dep}

include hredact

theorem ends_redactText {text : PyStr} {Q : PyStr × Members → Prop} {P : Prop} (hQ : ∀ r, Q r ↔ P) :
    Ends Exn.isOsOrValue (lift (R.redactText text) : Checked (PyStr × Members)) Q ↔
    (¬ Refused R [text] → P) := by
  cases h : R.redactText text with
  | ok r => simp [Refused, h, hQ]
  | error e => simp [Refused, h, hredact text e h]

/-- Where the check of a source ends. -/
theorem ends_checkSource {label name outputText : PyStr} {redactions : Json} {Q : Unit → Prop} :
    Ends Exn.isOsOrValue (checkSource R d.raw label name outputText redactions) Q ↔
      (¬ Refused R (textIn .raw d.raw name).toList → Q ()) := by
  unfold checkSource textIn
  rw [fileIn_eq .raw d.raw name (label ++ lit " raw source")]
  rcases readInZone .raw d.raw name (label ++ lit " raw source") with e | f
  · cases e with
    | missing => simp [Except.toOption, Refused]
    | bad message => simp [Except.toOption, Refused]
  · simp only [Except.toOption, Option.bind_some]
    cases utf8Decode f.content with
    | none => simp [Refused]
    | some text =>
      dsimp only
      simp only [ends_bind, ends_reportIf]
      exact ends_redactText hredact fun _ => Iff.rfl

/-- Where the check of one associated artifact ends. -/
theorem ends_checkAssociated {label : PyStr} {raw shareable : Members} {redactions : Json}
    {Q : Unit → Prop} :
    Ends Exn.isOsOrValue (checkAssociated R d label raw shareable redactions) Q ↔
      (¬ (associatedNames d raw shareable = .error .system
        ∨ Refused R (redactedTexts R d raw shareable))
        → Q ()) := by
  have hnone : (¬ Refused R [] → Q ()) ↔ Q () := by simp [Refused]
  unfold checkAssociated redactedTexts
  rcases associatedNames d raw shareable with e | ⟨rawName, outputName⟩
  · cases e with
    | bad message => simpa using hnone.symm
    | system => simp [Exn.isOsOrValue]
  · dsimp only
    have hok : ¬ (Except.ok (rawName, outputName) : Except PathError (PyStr × PyStr))
      = .error .system := by
      simp
    rw [or_iff_right hok]
    unfold checkOutput
    by_cases htext : textSuffixes.contains (R.lower (suffixOf outputName)) = true
    · rw [if_pos htext, if_pos htext]
      unfold textIn
      rw [fileIn_eq .shareable d.shareable outputName (label ++ lit " shareable output")]
      rcases readInZone .shareable d.shareable outputName
        (label ++ lit " shareable output") with e | f
      · cases e with
        | missing => simpa [Except.toOption] using hnone.symm
        | bad message => simpa [Except.toOption] using hnone.symm
      · simp only [Except.toOption, Option.bind_some]
        cases utf8Decode f.content with
        | none => simpa using hnone.symm
        | some outputText =>
          dsimp only
          simp only [ends_bind, ends_reportIf]
          -- the output is redacted before the source is read
          rw [ends_redactText hredact fun _ => ends_checkSource hredact]
          unfold textIn
          simp only [Refused, List.mem_cons, List.not_mem_nil, or_false, exists_eq_or_imp,
            exists_eq_left, not_or,
            and_imp]
    · rw [if_neg htext, if_neg htext]
      simpa using hnone.symm

/-- One row of `files`. -/
theorem ends_checkFileRow {rawRows shareableRows : List (PyStr × Members)} {s : Associations}
    {index : Nat}
    {row : Json} {Q : Associations → Prop} :
    Ends Exn.isOsOrValue (checkFileRow R d rawRows shareableRows s index row) Q ↔
      True ∧ (¬ FileStops R d rawRows shareableRows s row →
        Q (fileNext rawRows shareableRows s row)) := by
  have hskipped (hnone : accepted s row = none) :
      (True ∧ (¬ FileStops R d rawRows shareableRows s row →
        Q (fileNext rawRows shareableRows s row))) ↔ Q s := by
    simp [FileStops, fileNext, hnone]
  cases row with
  | obj m =>
    unfold checkFileRow
    dsimp only
    by_cases hkeys : keysEq m fileFields = true
    · rw [if_pos hkeys]
      cases hsource : bareName? (get (lit "source") m) with
      | none =>
        rw [hskipped (by simp [accepted, hkeys, hsource])]
        simp
      | some source =>
        cases houtput : bareName? (get (lit "output") m) with
        | none =>
          rw [hskipped (by simp [accepted, hkeys, hsource, houtput])]
          simp
        | some output =>
          dsimp only
          by_cases hseen : (s.sources.contains source || s.outputs.contains output) = true
          · rw [hskipped (by simp only [accepted, hkeys, hsource, houtput, hseen, if_true]),
              if_pos hseen]
            simp
          · have haccepted : accepted s (.obj m) = some (m, source, output) := by
              simp only [accepted, hkeys, hsource, houtput, if_true]
              rw [if_neg hseen]
            rw [if_neg hseen]
            unfold checkSuffixes
            simp only [ends_bind, ends_reportIf]
            unfold FileStops fileNext associated
            rw [haccepted]
            cases hraw : findRow source rawRows with
            | none => simp [hraw]
            | some raw =>
              cases hshareable : findRow output shareableRows with
              | none => simp [hraw, hshareable]
              | some shareable =>
                dsimp only
                unfold checkReportKeys each
                simp only [loop, ends_bind, ends_reportIf, ends_pure]
                rw [ends_checkAssociated hredact]
                simp [hraw, hshareable]
    · rw [hskipped (by simp [accepted, hkeys]), if_neg hkeys]
      simp
  | _ =>
    rw [hskipped rfl]
    simp [checkFileRow]

omit hredact in
/-- The check of a blocked row never raises. -/
theorem neverRaises_checkBlockedRow (sources : List PyStr) (rawRows : List (PyStr × Members))
    (seen : List PyStr)
    (index : Nat) (row : Json) : NeverRaises (checkBlockedRow sources rawRows seen index row) := by
  unfold NeverRaises checkBlockedRow
  cases row with
  | obj m =>
    dsimp only
    split
    · split
      · split
        · simp
        · split
          · simp
          · simp
      · simp
    · simp
  | _ => simp

/-- Where the check of all associations ends. -/
theorem ends_associations {manifest redaction : Members} {P : Prop} :
    Ends Exn.isOsOrValue (verifyRedactionAssociations R d manifest redaction) (fun _ => P) ↔
      AssociationsHandled R d manifest redaction P := by
  unfold verifyRedactionAssociations AssociationsHandled
  split
  · simp only [ends_bind, ends_reportIf]
    cases get (lit "files") redaction with
    | arr files =>
      cases get (lit "blocked") redaction with
      | arr blocked =>
        dsimp only
        unfold checkAssociations
        rw [ends_bind]
        cases hraw : iterate (getOr (lit "raw") (.arr []) manifest) with
        | error e =>
          rw [iterate_error hraw]
          simp [Exn.isOsOrValue]
        | ok raw =>
          rw [ends_lift_ok, ends_bind]
          cases hshareable : iterate (getOr (lit "shareable") (.arr []) manifest) with
          | error e =>
            rw [iterate_error hshareable]
            simp [Exn.isOsOrValue]
          | ok shareable =>
            have hloop := ends_loop (f := checkFileRow R d (rowsByName raw) (rowsByName shareable))
              fun _ _ _ _ => ends_checkFileRow hredact
            rw [ends_lift_ok, ends_bind, hloop]
            have hrest (s : Associations) :
                NeverRaises (loop (checkBlockedRow s.sources (rowsByName raw)) [] 0 blocked) :=
              NeverRaises.loop (fun seen index row => neverRaises_checkBlockedRow _ _ seen index
                row) [] 0 blocked
            simp only [ends_bind, ends_reportIf, (hrest _).ends]
            simp
      | _ => simp
    | _ => simp
  · simp

/-- Where the check of the evidence ends: the report first, then the artifacts. -/
theorem ends_evidence {manifest : Members} {portable : Bool} {P : Prop} :
    Ends Exn.isOsOrValue (checkEvidence R d manifest portable) (fun _ => P) ↔
      ReportHandled R d manifest (ArtifactsHandled R d manifest P) := by
  have hnull {Q : Prop} : Ends Exn.isOsOrValue (checkReport R d manifest .null)
    (fun _ => Q) ↔ Q := by
    simp [checkReport]
  unfold checkEvidence loadReport ReportHandled reportBytes
  simp only [ends_bind, ends_reportIf, ends_artifacts]
  rcases readRegularBytesAt d.documents (lit "redaction-report.json")
    (lit "machine-readable document " ++ lit "redaction-report.json") maxControlBytes with e | f
  · cases e with
    | missing => simpa [Except.toOption] using hnull
    | bad message => simpa [Except.toOption] using hnull
  · simp only [Except.toOption, Option.map_some]
    unfold TooDeep document loaded
    cases utf8Decode f.content with
    | none => simpa using hnull
    | some text =>
      dsimp only
      cases hload : loads (R.limit .report) text with
      | error e =>
        cases e with
        | decode => simpa [hload, Exn.ofJson, Exn.isOsOrValue] using hnull
        | digits => simpa [hload, Exn.ofJson, Exn.isOsOrValue] using hnull
        | recursion => simp [hload, Exn.ofJson, Exn.isOsOrValue]
      | ok v =>
        simp only [ends_pure, Option.map_some, hload, Option.some.injEq, reduceCtorEq,
          not_false_eq_true, true_and]
        cases v with
        | null => exact hnull
        | obj redaction =>
          unfold checkReport
          simp only [reduceCtorEq, if_false, ends_bind, members, ends_lift_ok, ends_reportIf]
          exact ends_associations hredact
        | _ => simp [checkReport, members, Exn.isOsOrValue]

end Report

/-! ## The attachments -/

theorem hashable_eq (v : Json) : checkAttachments.hashable v = if isHashable v then .ok v else
    .error .type := by
  cases v with
  | _ => rfl

theorem ends_hashable {v : Json} {Q : Json → Prop} {P : Prop} (hQ : ∀ w, Q w ↔ P) :
    Ends Exn.isOsOrValue (lift (checkAttachments.hashable v) : Checked Json) Q ↔
    isHashable v = true ∧ P := by
  rw [hashable_eq]
  split
  · next h => simp [hQ, h]
  · next h => simp [h, Exn.isOsOrValue]

/-- The objects in a list. -/
def objectsIn (xs : List Json) : List Members :=
  xs.filterMap fun x =>
    match x with
    | .obj m => some m
    | _ => none

/-- The objects of a list are its elements that are objects. -/
theorem mem_objectsIn {xs : List Json} {m : Members} : m ∈ objectsIn xs ↔ .obj m ∈ xs := by
  unfold objectsIn
  rw [List.mem_filterMap]
  constructor
  · rintro ⟨x, hx, hm⟩
    cases x with
    | obj m' =>
      obtain rfl := Option.some.inj hm
      exact hx
    | _ => exact absurd hm (by simp)
  · intro h
    exact ⟨.obj m, h, rfl⟩

/-- Collecting the rows by path fails with a `TypeError` at the first path that cannot be hashed. -/
theorem filterMapM_rows (rows : List Json) : rows.filterMapM checkAttachments.rowByPath
    = if (objectsIn rows).all (fun m => isHashable (get (lit "path") m)) then
        .ok ((objectsIn rows).map fun m => (get (lit "path") m, m))
      else .error .type := by
  induction rows with
  | nil => rfl
  | cons row rest ih =>
    rw [List.filterMapM_cons, ih]
    cases row with
    | obj m =>
      have hrow : checkAttachments.rowByPath (.obj m)
          = if isHashable (get (lit "path") m) then .ok (some (get (lit "path") m, m)) else
            .error .type := by
        show (checkAttachments.hashable (get (lit "path") m) >>= fun path =>
          Except.ok (some (path, m))) = _
        rw [hashable_eq]
        split
        · rfl
        · rfl
      have hobjects : objectsIn (.obj m :: rest) = m :: objectsIn rest := rfl
      rw [hrow, hobjects, List.all_cons]
      by_cases hpath : isHashable (get (lit "path") m) = true
      · rw [if_pos hpath, hpath, Bool.true_and]
        by_cases hall : (objectsIn rest).all (fun m => isHashable (get (lit "path") m)) = true
        · rw [hall]
          rfl
        · rw [Bool.eq_false_iff.mpr hall]
          rfl
      · rw [if_neg hpath, Bool.eq_false_iff.mpr hpath, Bool.false_and]
        rfl
    | _ => rfl

theorem ends_rows {rows : List Json} {Q : List (Json × Members) → Prop} {P : Prop}
    (hQ : ∀ r, Q r ↔ P) :
    Ends Exn.isOsOrValue (lift (rows.filterMapM checkAttachments.rowByPath) : Checked
      (List (Json × Members))) Q ↔
      (∀ m ∈ objectsIn rows, isHashable (get (lit "path") m) = true) ∧ P := by
  rw [filterMapM_rows, ← List.all_eq_true]
  split
  · next h => simp [hQ, h]
  · next h => simp [h, Exn.isOsOrValue]

theorem ends_iterate {v : Json} {Q : List Json → Prop} :
    Ends Exn.isOsOrValue (lift (iterate v) : Checked (List Json)) Q ↔ ∃ xs, iterate v = .ok xs
    ∧ Q xs := by
  cases h : iterate v with
  | ok xs => simp
  | error e =>
    rw [iterate_error h]
    simp [Exn.isOsOrValue]

/-- Where the check of the attachments ends. -/
theorem ends_attachments {R : Rules} {summary manifest : Members} :
    Ends Exn.isOsOrValue (checkAttachments R summary manifest) (fun _ => True) ↔
      AttachmentsHandled summary manifest := by
  unfold checkAttachments AttachmentsHandled
  rw [ends_bind, ends_iterate]
  refine exists_congr fun attachments => ?_
  rw [exists_and_left]
  refine and_congr_right fun _ => ?_
  simp only [ends_bind, ends_reportIf, ends_iterate]
  refine exists_congr fun rows => and_congr_right fun _ => ?_
  rw [ends_rows (P := ∀ m ∈ objectsIn attachments, isHashable (get (lit "path") m) = true)
    fun registered => ?_]
  · simp only [mem_objectsIn, List.mem_append]
    constructor
    · rintro ⟨hrows, hattachments⟩ m (hm | hm)
      · exact hrows m hm
      · exact hattachments m hm
    · intro h
      exact ⟨fun m hm => h m (.inl hm), fun m hm => h m (.inr hm)⟩
  · unfold each
    rw [ends_each (g := fun m => isHashable (get (lit "path") m) = true) fun m Q => ?_]
    · exact iff_of_eq (and_true _)
    · rw [ends_bind]
      exact ends_hashable fun _ => ends_reportIf

/-! ## The package -/

section Package

variable {R : Rules} (hschema : ∀ v e, R.schemaErrors v = .error e → e.isOsOrValue = true)
  (hredact : ∀ text e, R.redactText text = .error e → e.isOsOrValue = true) {d : Dep}

theorem ends_members {v : Json} {Q : Members → Prop} :
    Ends Exn.isOsOrValue (lift (members v) : Checked Members) Q ↔ ∃ m, v = .obj m ∧ Q m := by
  cases v with
  | obj m => simp [members]
  | _ => simp [members, Exn.isOsOrValue]

theorem ends_manifestMembers {v : Json} {Q : Members → Prop} :
    Ends Exn.isOsOrValue (lift (manifestMembers v) : Checked Members) Q ↔ ∃ m, v = .obj m
    ∧ Q m := by
  cases v with
  | obj m => simp [manifestMembers]
  | arr xs =>
    show Ends _ (lift (ite _ _ _)) Q ↔ _
    split
    · simp [Exn.isOsOrValue]
    · simp [Exn.isOsOrValue]
  | _ => simp [manifestMembers, Exn.isOsOrValue]

/-- Where the check of the manifest's own fields ends. -/
theorem ends_manifestRoot {summary : Json} {manifest : Members} {Q : Members → Prop} :
    Ends Exn.isOsOrValue (checkManifestRoot summary manifest) Q ↔
      (keysEq manifest (["schema_version", "dep_id", "raw", "shareable"].map lit) = true →
        isHashable (get (lit "schema_version") manifest) = true) ∧ ∃ s, summary = .obj s ∧ Q s := by
  unfold checkManifestRoot
  simp only [ends_bind, ends_reportIf, ends_pure]
  split
  · next hkeys =>
    rw [ends_member fun _ => ends_members]
    simp only [hkeys, true_imp_iff]
  · next hkeys =>
    rw [ends_lift_ok, ends_members]
    exact ⟨fun h => ⟨fun hk => absurd hk hkeys, h⟩, fun h => h.2⟩

theorem neverRaises_checkDocument (name : PyStr) : NeverRaises (checkDocument d name) := by
  unfold NeverRaises checkDocument
  split
  · simp
  · simp
  · simp

include hredact in
theorem ends_checkPhase {strict portable : Bool} {summary manifest workflow : Members}
    {phase : Nat} :
    Ends Exn.isOsOrValue (checkPhase R d strict portable summary manifest workflow phase)
    (fun _ => True) ↔
      PhaseHandled R d strict summary manifest phase := by
  have hdocuments (names : List PyStr) : NeverRaises (each (checkDocument d) names) :=
    NeverRaises.loop (fun _ _ name => neverRaises_checkDocument name) () 0 names
  unfold checkPhase PhaseHandled checkCollected
  simp only [ends_bind, ends_reportIf, (hdocuments _).ends, ends_attachments]
  split
  · exact ends_evidence hredact
  · exact Iff.rfl

include hschema in
/-- A summary that is an object has or lacks its fields. -/
theorem ends_checkSummary {summary : Json} {P : Prop} :
    Ends Exn.isOsOrValue (checkSummary R summary) (fun _ => P) ↔
      (∀ name ∈ summaryFields, (containsField summary name).isOk = true) ∧ P := by
  have hfields : Ends Exn.isOsOrValue (each (fun name => do
      let found ← lift (containsField summary name)
      Check.reportIf (!found) (lit "summary missing " ++ name)) summaryFields) (fun _ => P) ↔
      (∀ name ∈ summaryFields, (containsField summary name).isOk = true) ∧ P := by
    refine ends_each (g := fun name => (containsField summary name).isOk = true)
      (fun name Q => ?_) 0 _ _
    rw [ends_bind]
    cases hfield : containsField summary name with
    | ok found => simp [Except.isOk, Except.toBool]
    | error e =>
      have he : e = .type := by
        unfold containsField at hfield
        split at hfield
        · exact absurd hfield (by simp)
        · exact absurd hfield (by simp)
        · exact absurd hfield (by simp)
        · exact (Except.error.inj hfield).symm
      rw [he]
      simp [Except.isOk, Except.toBool, Exn.isOsOrValue]
  unfold checkSummary
  cases hv : R.schemaErrors summary with
  | ok errors =>
    dsimp only
    rw [ends_bind, ends_reportAll]
    exact hfields
  | error e =>
    dsimp only
    rw [if_pos (hschema _ _ hv), ends_bind, ends_report]
    exact hfields

include hschema hredact in
/-- Where the checks of the package end. What comes first is reported first, so each part only
matters if those before it have ended. -/
theorem ends_checkPackage {strict portable : Bool} {summary manifest : Json} :
    Ends Exn.isOsOrValue (checkPackage R d strict portable summary manifest) (fun _ => True) ↔
      PackageHandled R d strict summary manifest := by
  unfold checkPackage PackageHandled
  rw [ends_bind, ends_checkSummary hschema]
  simp only [ends_bind, ends_manifestMembers, ends_manifestRoot, ends_members]
  constructor
  · -- both documents are objects, as both are asked for a member
    rintro ⟨-, m, hm, hversion, s, hs, workflow, hworkflow, hends⟩
    refine ⟨s, m, workflow, hs, hm, hversion, hworkflow, fun phase hphase => ?_⟩
    unfold phaseOf at hphase
    rw [hphase] at hends
    exact (ends_checkPhase hredact).mp hends
  · rintro ⟨s, m, workflow, rfl, rfl, hversion, hworkflow, hphases⟩
    refine ⟨fun name _ => rfl, m, rfl, hversion, s, rfl, workflow, hworkflow, ?_⟩
    cases hphase : phaseOf workflow with
    | none =>
      unfold phaseOf at hphase
      rw [hphase]
      trivial
    | some phase =>
      have hhandled := hphases phase hphase
      unfold phaseOf at hphase
      rw [hphase]
      exact (ends_checkPhase hredact).mpr hhandled

theorem neverRaises_readControl (overrides : List (PyStr × Bytes)) (name : PyStr) :
    NeverRaises (readControl d overrides name) := by
  unfold NeverRaises readControl
  split
  · simp
  · simp
  · simp

theorem neverRaises_readControls (strict portable : Bool) (overrides : List (PyStr × Bytes)) :
    NeverRaises (readControls d strict portable overrides) := by
  unfold readControls
  refine NeverRaises.bind trivial fun _ => NeverRaises.bind (by unfold NeverRaises; simp)
    fun _ => ?_
  exact (neverRaises_readControl _ _).bind fun _ =>
    (neverRaises_readControl _ _).bind fun _ => trivial

/-- An `Except` raises caught exceptions only. -/
def Catches {α : Type} (x : Except Exn α) : Prop := ∀ e, x = .error e → e.isOsOrValue = true

/-- A control file is parsed, or fails with what is caught, unless it nests too deep. -/
theorem catches_parseControl {α : Type} {limit : Nat} {raw : Bytes}
    {f : Except PyStr Json → Except Exn α}
    (hf : ∀ message, Catches (f (.error message))) :
    Catches (parseControl limit raw >>= f) ↔
      ¬ TooDeep limit raw ∧ ∀ v, document limit raw = some v → Catches (f (.ok v)) := by
  unfold parseControl TooDeep document loaded
  cases utf8Decode raw with
  | none =>
    have hleft :
      Catches (f (.error (lit "invalid machine-readable document: UnicodeDecodeError"))) := hf _
    simpa [Bind.bind, Except.bind] using hleft
  | some text =>
    cases hload : loads limit text with
    | ok v => simp [hload, Bind.bind, Except.bind]
    | error e =>
      cases e with
      | decode =>
        have hleft :
          Catches (f (.error (lit "invalid machine-readable document: JSONDecodeError"))) := hf _
        simpa [hload, Bind.bind, Except.bind] using hleft
      | digits =>
        have hleft : Catches (.error (Exn.ofJson .digits) : Except Exn α) := by
          intro e he
          rw [← Except.error.inj he]
          rfl
        simpa [hload, Bind.bind, Except.bind] using hleft
      | recursion =>
        have hright : ¬ Catches (.error (Exn.ofJson .recursion) : Except Exn α) := by
          intro h
          exact absurd (h _ rfl) (by simp [Exn.ofJson, Exn.isOsOrValue])
        simpa [hload, Bind.bind, Except.bind] using hright

theorem catches_ok {α : Type} (a : α) : Catches (.ok a : Except Exn α) := fun e he =>
    absurd he (by simp)

include hschema hredact in
/-- The same for both control files, in their order. -/
theorem catches_verifyControls {strict portable : Bool} {summary manifest : Control} :
    Catches (verifyControls R d strict portable summary manifest) ↔
      ¬ TooDeep (R.limit .control) summary.bytes ∧ ∀ s,
      document (R.limit .control) summary.bytes = some s →
        ¬ TooDeep (R.limit .control) manifest.bytes ∧ ∀ m,
        document (R.limit .control) manifest.bytes = some m →
          PackageHandled R d strict s m := by
  have hpackage (s m : Json) {f : Unit × List PyStr → Verification} :
      Catches ((checkPackage R d strict portable s m : Except Exn (Unit × List PyStr)) >>= fun r =>
        .ok (f r)) ↔
        PackageHandled R d strict s m := by
    rw [← @ends_checkPackage R hschema hredact d strict portable s m]
    rcases checkPackage R d strict portable s m with e | r
    · constructor
      · exact fun h => h e rfl
      · intro h e' he'
        rw [← Except.error.inj he']
        exact h
    · exact ⟨fun _ => trivial, fun _ => catches_ok (f r)⟩
  unfold verifyControls
  dsimp only
  refine (catches_parseControl fun message => ?_).trans ?_
  · exact catches_ok _
  · refine and_congr_right fun _ => forall_congr' fun s => imp_congr_right fun _ => ?_
    refine (catches_parseControl fun message => ?_).trans ?_
    · exact catches_ok _
    · exact and_congr_right fun _ => forall_congr' fun m => imp_congr_right fun _ => hpackage s m

include hschema hredact in
/-- `verify` returns exactly on the packages that are handled. -/
theorem verify_ok_iff {strict portable : Bool} :
    (∃ errors, verify R d strict portable = .ok errors) ↔ Handled R d strict portable := by
  have hverify : (∃ errors, verify R d strict portable = .ok errors) ↔
    Catches (verifyOpen R d strict portable []) := by
    unfold verify
    cases verifyOpen R d strict portable [] with
    | ok v => exact ⟨fun _ => catches_ok v, fun _ => ⟨v.errors, rfl⟩⟩
    | error e =>
      dsimp only
      split
      · next hcaught =>
        refine ⟨fun _ e' he' => ?_, fun _ => ⟨_, rfl⟩⟩
        rw [← Except.error.inj he']
        exact hcaught
      · next hraised =>
        constructor
        · rintro ⟨errors, h⟩
          exact absurd h (by simp)
        · exact fun h => absurd (h e rfl) hraised
  rw [hverify]
  obtain ⟨⟨summary, manifest⟩, errors, hcontrols⟩ :=
    (neverRaises_readControls (d := d) strict portable []).returns
  unfold verifyOpen Handled
  rw [hcontrols]
  dsimp only [Bind.bind, Except.bind]
  cases summary with
  | none =>
    refine ⟨fun _ s m h => ?_, fun _ => catches_ok _⟩
    exact absurd (congrArg Prod.fst (Prod.mk.inj (Except.ok.inj h)).1) (by simp)
  | some summary =>
    cases manifest with
    | none =>
      refine ⟨fun _ s m h => ?_, fun _ => catches_ok _⟩
      exact absurd (congrArg Prod.snd (Prod.mk.inj (Except.ok.inj h)).1) (by simp)
    | some manifest =>
      cases errors with
      | cons error errors =>
        refine ⟨fun _ s m h => ?_, fun _ => catches_ok _⟩
        exact absurd (Prod.mk.inj (Except.ok.inj h)).2 (by simp)
      | nil =>
        dsimp only
        rw [catches_verifyControls hschema hredact]
        constructor
        · intro h s m heq
          have hcontrols := (Prod.mk.inj (Except.ok.inj heq)).1
          obtain rfl := Option.some.inj (congrArg Prod.fst hcontrols)
          obtain rfl := Option.some.inj (congrArg Prod.snd hcontrols)
          exact h
        · exact fun h => h summary manifest rfl

end Package

/-! ## The verification -/

/-- The rules with `redact_text` as it is, for what the regular expressions of the module match. -/
def Rules.redacting (R : Rules) (P : Redaction.Patterns)
    (rules : List (PyStr × (PyStr → PyStr × Nat))) : Rules :=
  { R with redactText := Evidence.redactText P rules }

/-- A package whose summary is `0`. -/
def numberDep : Dep where
  documents := [(lit "summary.yaml", sampleText "0"), (lit "manifest.json", sampleText "\x7b\x7d")]
  raw := .missing
  shareable := .missing

theorem numberDep_raises :
    verify (sampleRules.redacting Redaction.noPatterns []) numberDep false false
    = .error .type := by rfl

end SddGov.Evidence
