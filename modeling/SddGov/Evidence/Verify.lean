import SddGov.Evidence.Package
import SddGov.MergeGate.Gate

/-!
# The verification of an evidence package

`_verify_open` and its two passes over the artifacts: the rows of the manifest
with the files they name, and the associations of the redaction report. Every
error goes into a list and the verification goes on; what it cannot handle is
raised (`Check`).

The rules are parameters: the JSON Schema validator, the redaction of a text,
`str.lower` and `str` of the language, and how deep its JSON parser descends.
-/

namespace SddGov.Evidence

open SddGov.Effect SddGov.Python
open SddGov.Effect.Check (report reportIf reportAll raise lift loop)
open SddGov.Autonomy (pathParts)
open SddGov.MergeGate (containsText)

/-- The calls of `json.loads`, each with other frames on the stack. -/
inductive Loaded
  | control
  | report
  | artifact
  deriving DecidableEq

structure Rules where
  crypto : Crypto
  /-- `str.lower` -/
  lower : PyStr → PyStr
  /-- `str(value)` -/
  str : Json → PyStr
  /-- `validate_instance(summary, bundled_schema("debug-evidence-package.schema.json"))` -/
  schemaErrors : Json → Except Exn (List PyStr)
  /-- `redact_text` -/
  redactText : PyStr → Except Exn (PyStr × Members)
  /-- how many containers the parser descends into before the recursion limit -/
  limit : Loaded → Nat

abbrev Checked (α : Type) := Check Exn PyStr α

/-- `str(exc)`; the texts of Python's own errors are not kept. -/
def exnText : Exn → PyStr
  | .value message => message
  | _ => lit "OSError"

/-- A check for every element. -/
def each {α : Type} (f : α → Checked Unit) (xs : List α) :
    Checked Unit := loop (fun _ _ x => f x) () 0 xs

/-- `for x in value` -/
def iterate : Json → Except Exn (List Json)
  | .arr xs => .ok xs
  | .obj m => .ok ((keys m).map .str)
  | .str s => .ok (s.map fun c => .str [c])
  | _ => .error .type

/-- `members.get(key, default)` -/
def getOr (key : PyStr) (fallback : Json) (m : Members) : Json := (lookup key m).getD fallback

/-- `value is b` -/
def isFlag (b : Bool) : Json → Bool
  | .bool c => b == c
  | _ => false

/-- An integer that is no boolean and is at least the bound. -/
def isIntAtLeast (bound : Int) : Json → Bool
  | .int n => bound ≤ n
  | _ => false

/-- The integer behind `isinstance(value, int)`. -/
def intValue? : Json → Option Int
  | .int n => some n
  | .bool b => some (if b then 1 else 0)
  | _ => none

/-- Equal as sets. -/
def sameSet (a b : List PyStr) : Bool := a.all (b.contains ·) && b.all (a.contains ·)

/-! ## The artifacts of the manifest -/

def collectors : List PyStr :=
  ["browser-console", "browser-har", "playwright-trace", "flutter-log", "android-logcat",
    "supabase-log",
    "docker-log", "terminal", "git"].map lit

def textSuffixes : List PyStr :=
  [".txt", ".log", ".json", ".jsonl", ".yaml", ".yml", ".xml", ".md", ".csv", ".tsv", ".html",
    ".js", ".ts",
    ".dart", ".sh"].map lit

def mediaTypes : List PyStr :=
  ["application/har+json", "application/json", "application/octet-stream",
    "text/plain; charset=utf-8"].map lit

/-- `row_contracts` -/
def rowContract : Kind → List PyStr
  | .raw => ["collector", "path", "source_suffix", "media_type", "sha256", "size", "collected_at",
      "shareable"].map lit
  | .shareable => ["path", "sha256", "size", "shareable"].map lit

/-- `json.loads(raw.decode("utf-8"))`, with `None` where it cannot be read. -/
def parsedOrNone (limit : Nat) (raw : Bytes) : Except Exn Json :=
  match utf8Decode raw with
  | none => .ok .null
  | some text =>
    match loads limit text with
    | .ok v => .ok v
    | .error .decode => .ok .null
    | .error e => .error (.ofJson e)

/-- `parsed["log"]["entries"]` is a list. -/
def isHarLog : Json → Bool
  | .obj m =>
    match get (lit "log") m with
    | .obj log => isArray (get (lit "entries") log)
    | _ => false
  | _ => false

section Verify

variable (R : Rules)

/-- `_artifact_media_type` -/
def artifactMediaType (suffix : PyStr) (raw : Bytes) : Except Exn PyStr :=
  let normalized := R.lower suffix
  if normalized = lit ".har" then .ok (lit "application/har+json")
  else do
    let parsed ← parsedOrNone (R.limit .artifact) raw
    .ok (if isHarLog parsed then lit "application/har+json"
      else if normalized = lit ".json" ∧ parsed ≠ .null then lit "application/json"
      else if textSuffixes.contains normalized ∧ (utf8Decode raw).isSome then
        lit "text/plain; charset=utf-8"
      else lit "application/octet-stream")

/-- The fields that only a raw row has. -/
def checkRawFields (label : PyStr) (m : Members) : Checked Unit := do
  let collector ← lift (memberOfSet (get (lit "collector") m) collectors)
  reportIf (!collector) (label ++ lit " has an unsupported collector")
  reportIf (get (lit "source_suffix") m != .str (R.lower (suffixOf (R.str (get (lit "path") m)))))
    (label ++ lit " source_suffix does not match its immutable path")
  let mediaType ← lift (memberOfSet (get (lit "media_type") m) mediaTypes)
  reportIf (!mediaType) (label ++ lit " media_type is invalid")
  reportIf (text? (get (lit "collected_at") m)).isNone (label ++ lit " collected_at is invalid")

/-- The fields of a row. -/
def checkRowFields (kind : Kind) (label : PyStr) (m : Members) : Checked Unit := do
  if kind = .raw then checkRawFields R label m else pure ()
  reportIf (!isFlag (kind == .shareable) (get (lit "shareable") m))
    (label ++ lit " shareable flag is invalid")
  reportIf (!isIntAtLeast 0 (get (lit "size") m)) (label ++ lit " size is invalid")
  reportIf (!isDigest (get (lit "sha256") m)) (label ++ lit " sha256 is invalid")
where
  isDigest : Json → Bool
    | .str s => isSha256 s
    | _ => false

/-- The media type of a raw artifact; an old manifest calls JSON a text. -/
def checkMediaType (manifest m : Members) (relative : PyStr) (f : FileEntry) : Checked Unit :=
  match get (lit "source_suffix") m with
  | .str suffix => do
    let detected ← lift (artifactMediaType R suffix f.content)
    let legacy := pyEq (get (lit "schema_version") manifest) (.str (lit "1.0"))
      && suffix == lit ".json"
      && pyEq (get (lit "media_type") m) (.str (lit "text/plain; charset=utf-8"))
      && detected == lit "application/json"
    reportIf (!pyEq (get (lit "media_type") m) (.str detected) && !legacy)
      (lit "artifact media_type mismatch: " ++ relative)
  | _ => raise .attribute

/-- The file is the one the row describes. -/
def checkContent (kind : Kind) (manifest m : Members) (relative : PyStr) (f : FileEntry) :
    Checked Unit := do
  reportIf ((intValue? (get (lit "size") m)).any (· != (f.content.length : Int)))
    (lit "artifact size mismatch: " ++ relative)
  reportIf ((textOf (get (lit "sha256") m)).any (· != R.crypto.sha256 f.content))
    (lit "artifact sha256 mismatch: " ++ relative)
  if kind = .raw then checkMediaType R manifest m relative f else pure ()
where
  textOf : Json → Option PyStr
    | .str s => some s
    | _ => none

/-- A raw artifact may be missing from a portable package. -/
def missingArtifact (portable : Bool) (kind : Kind) (message : PyStr) : Checked Unit :=
  reportIf (!(portable && kind == .raw)) message

/-- The file behind a row. -/
def checkArtifact (portable : Bool) (kind : Kind) (z : Zone) (manifest m : Members)
    (relative name : PyStr) :
    Checked Unit :=
  match readInZone kind z name (lit "artifact " ++ relative) with
  | .error .missing => missingArtifact portable kind (lit "missing artifact: " ++ relative)
  | .error (.bad message) => report message
  | .ok f => checkContent R kind manifest m relative f

/-- One row of the manifest; the state is the paths of the rows before it. -/
def checkRow (tooLong : PyStr → Bool) (portable : Bool) (kind : Kind) (z : Zone)
    (manifest : Members)
    (expected : List PyStr) (index : Nat) (row : Json) : Checked (List PyStr) :=
  let label := lit "manifest " ++ kind.text ++ lit "[" ++ natText index ++ lit "]"
  match row with
  | .obj m =>
    if keysEq m (rowContract kind) then do
      checkRowFields R kind label m
      match manifestArtifactPath tooLong kind z (get (lit "path") m) with
      | .error (.bad message) => do
        report message
        pure expected
      | .error .system => raise (.os .other)
      | .ok (relative, name) =>
        if expected.contains relative then do
          report (lit "duplicate manifest artifact path: " ++ relative)
          pure expected
        else do
          checkArtifact R portable kind z manifest m relative name
          pure (relative :: expected)
    else do
      report (label ++ lit " has an invalid contract")
      pure expected
  | _ => do
    report (label ++ lit " has an invalid contract")
    pure expected

/-- The zone is opened before its rows are read. -/
def checkZone (portable : Bool) (kind : Kind) (z : Zone) : Checked Unit :=
  match openZone kind.zone z with
  | .error .missing => missingArtifact portable kind (lit "missing artifact zone: " ++ kind.zone)
  | .error (.bad message) => raise (.value message)
  | .ok _ => pure ()

/-- The files of the zone are those of the rows. -/
def checkExtras (kind : Kind) (z : Zone) (expected : List PyStr) : Checked Unit :=
  match z with
  | .opened entries => do
    reportAll (actualZoneFiles kind.zone entries).2
    let extras := sortedSet ((actualZoneFiles kind.zone entries).1.filter fun path =>
      !expected.contains path)
    reportIf (!extras.isEmpty) (lit "unregistered artifacts in " ++ kind.zone ++ lit ": "
      ++ joinTexts (lit ", ") extras)
  | _ => pure ()

/-- The rows of one kind and their zone. -/
def checkRows (tooLong : PyStr → Bool) (portable : Bool) (kind : Kind) (z : Zone)
    (manifest : Members) :
    Checked Unit :=
  match get kind.text manifest with
  | .arr rows => do
    checkZone portable kind z
    let expected ← loop (checkRow R tooLong portable kind z manifest) [] 0 rows
    checkExtras kind z expected
  | _ => report (lit "manifest " ++ kind.text ++ lit " must be an array")

/-- `_verify_manifest_artifacts` -/
def verifyManifestArtifacts (d : Dep) (manifest : Members) (portable : Bool) : Checked Unit := do
  checkRows R d.tooLong portable .raw d.raw manifest
  checkRows R d.tooLong portable .shareable d.shareable manifest

/-! ## The redaction report -/

/-- The rows of a kind by the last component of their path; a later row replaces an earlier one. -/
def rowsByName (rows : List Json) : List (PyStr × Members) :=
  (rows.filterMap fun row =>
    match row with
    | .obj m =>
      match get (lit "path") m with
      | .str path => some (nameOf path, m)
      | _ => none
    | _ => none).reverse

def findRow (name : PyStr) (rows : List (PyStr × Members)) : Option Members :=
  (rows.find? fun row => row.1 == name).map Prod.snd

/-- `isinstance(name, str) and name and Path(name).name == name` -/
def bareName? : Json → Option PyStr
  | .str name => if name ≠ [] ∧ nameOf name = name then some name else none
  | _ => none

/-- `seen_sources`, `seen_outputs` and `computed_totals` -/
structure Associations where
  sources : List PyStr := []
  outputs : List PyStr := []
  totals : Members := []

/-- `totals[key] = totals.get(key, 0) + value` for every count. -/
def addCounts (totals counts : Members) : Members :=
  counts.foldl (fun totals c =>
    setMember c.1 (.int ((intValue? (getOr c.1 (.int 0) totals)).getD 0 + (intValue? c.2).getD 0))
      totals) totals

/-- HAR evidence, by its collector or its media type. -/
def isHarRow (raw : Members) : Bool :=
  pyEq (get (lit "collector") raw) (.str (lit "browser-har"))
    || pyEq (get (lit "media_type") raw) (.str (lit "application/har+json"))

/-- The output is the redaction of the source, where the source is there. -/
def checkSource (raw : Zone) (label name outputText : PyStr) (redactions : Json) : Checked Unit :=
  match readInZone .raw raw name (label ++ lit " raw source") with
  | .error .missing => pure ()
  | .error (.bad message) => report message
  | .ok f =>
    match utf8Decode f.content with
    | none => report (label ++ lit " raw text is not valid UTF-8")
    | some rawText => do
      let redacted ← lift (R.redactText rawText)
      reportIf (outputText != redacted.1)
        (label ++ lit " output is not the deterministic redaction of source")
      reportIf (!pyEq redactions (.obj redacted.2))
        (label ++ lit " redaction counts do not match recalculation")

/-- The text of a shareable output, and its source. -/
def checkOutput (d : Dep) (label rawName outputName : PyStr) (redactions : Json) : Checked Unit :=
  if textSuffixes.contains (R.lower (suffixOf outputName)) then
    match readInZone .shareable d.shareable outputName (label ++ lit " shareable output") with
    | .error .missing => pure ()
    | .error (.bad message) => report message
    | .ok f =>
      match utf8Decode f.content with
      | none => report (label ++ lit " shareable text is not valid UTF-8")
      | some outputText => do
        let rescanned ← lift (R.redactText outputText)
        reportIf (rescanned.1 != outputText)
          (label ++ lit " shareable output still matches redaction rules")
        checkSource R d.raw label rawName outputText redactions
  else pure ()

/-- The types of the two files. -/
def checkSuffixes (label source output : PyStr) : Checked Unit := do
  reportIf (!textSuffixes.contains (R.lower (suffixOf source)))
    (label ++ lit " source type is not eligible for deterministic redaction")
  reportIf (!textSuffixes.contains (R.lower (suffixOf output)))
    (label ++ lit " output type is not eligible for deterministic redaction")
  reportIf (R.lower (suffixOf source) != R.lower (suffixOf output))
    (label ++ lit " source and output types do not match")

/-- `redactions` maps rules to positive counts. -/
def counts? : Json → Option Members
  | .obj m => if m.all fun c => !c.1.isEmpty && isIntAtLeast 1 c.2 then some m else none
  | _ => none

/-- The digests and sizes are those of the manifest. -/
def checkReportKeys (label : PyStr) (row raw shareable : Members) : Checked Unit :=
  each (fun (k : String × String × Members) =>
      reportIf (!pyEq (get (lit k.1) row) (get (lit k.2.1) k.2.2))
        (label ++ lit " " ++ lit k.1 ++ lit " does not match manifest"))
    [("source_sha256", "sha256", raw), ("source_size", "size", raw),
      ("output_sha256", "sha256", shareable),
      ("output_size", "size", shareable)]

/-- The names of the two files of an association in their zones. -/
def associatedNames (d : Dep) (raw shareable : Members) : Except PathError (PyStr × PyStr) := do
  let raw ← manifestArtifactPath d.tooLong .raw d.raw (get (lit "path") raw)
  let shareable ← manifestArtifactPath d.tooLong .shareable d.shareable (get (lit "path") shareable)
  .ok (raw.2, shareable.2)

/-- The files of an association, if both paths are paths of their zones. -/
def checkAssociated (d : Dep) (label : PyStr) (raw shareable : Members) (redactions : Json) :
    Checked Unit :=
  match associatedNames d raw shareable with
  | .ok (rawName, outputName) => checkOutput R d label rawName outputName redactions
  | .error (.bad _) => pure ()
  | .error .system => raise (.os .other)

def fileFields : List PyStr :=
  ["source", "output", "source_sha256", "source_size", "output_sha256", "output_size",
    "redactions"].map lit

/-- One row of `files`. -/
def checkFileRow (d : Dep) (rawRows shareableRows : List (PyStr × Members)) (s : Associations)
    (index : Nat)
    (row : Json) : Checked Associations :=
  let label := lit "redaction report files[" ++ natText index ++ lit "]"
  match row with
  | .obj m =>
    if keysEq m fileFields then
      match bareName? (get (lit "source") m), bareName? (get (lit "output") m) with
      | some source, some output =>
        if s.sources.contains source || s.outputs.contains output then do
          report (label ++ lit " duplicates a source or output association")
          pure s
        else do
          checkSuffixes R label source output
          let seen : Associations := ⟨source :: s.sources, output :: s.outputs, s.totals⟩
          match findRow source rawRows, findRow output shareableRows with
          | some raw, some shareable => do
            reportIf (isHarRow raw) (label ++ lit " HAR evidence must remain blocked")
            checkReportKeys label m raw shareable
            let redactions := get (lit "redactions") m
            reportIf (counts? redactions).isNone (label ++ lit " redactions are invalid")
            checkAssociated R d label raw shareable redactions
            pure { seen with totals := addCounts s.totals ((counts? redactions).getD []) }
          | _, _ => do
            report (label ++ lit " is not fully associated with manifest artifacts")
            pure seen
      | _, _ => do
        report (label ++ lit " contains an invalid source or output name")
        pure s
    else do
      report (label ++ lit " has an invalid contract")
      pure s
  | _ => do
    report (label ++ lit " has an invalid contract")
    pure s

/-- One row of `blocked`; the state is the files of the rows before it. -/
def checkBlockedRow (sources : List PyStr) (rawRows : List (PyStr × Members)) (seen : List PyStr)
    (index : Nat)
    (row : Json) : Checked (List PyStr) :=
  let label := lit "redaction report blocked[" ++ natText index ++ lit "]"
  match row with
  | .obj m =>
    if keysEq m (["file", "reason", "sha256", "size"].map lit) then
      match bareName? (get (lit "file") m), text? (get (lit "reason") m) with
      | some source, some reason =>
        if sources.contains source || seen.contains source then do
          report (label ++ lit " duplicates or overlaps a raw association")
          pure seen
        else
          match findRow source rawRows with
          | some raw => do
            reportIf (!pyEq (get (lit "sha256") m) (get (lit "sha256") raw))
              (label ++ lit " sha256 does not match manifest")
            reportIf (!pyEq (get (lit "size") m) (get (lit "size") raw))
              (label ++ lit " size does not match manifest")
            reportIf (isHarRow raw && reason != lit "har_requires_dedicated_body_stripping")
              (label ++ lit " HAR block reason is invalid")
            pure (source :: seen)
          | none => do
            report (label ++ lit " is not associated with a manifest raw artifact")
            pure (source :: seen)
      | _, _ => do
        report (label ++ lit " contains an invalid file or reason")
        pure seen
    else do
      report (label ++ lit " has an invalid contract")
      pure seen
  | _ => do
    report (label ++ lit " has an invalid contract")
    pure seen

def reportFields : List PyStr :=
  ["schema_version", "files", "blocked", "totals", "dep_id", "generated_at"].map lit

/-- The rows of the report, once both lists are there. -/
def checkAssociations (d : Dep) (manifest redaction : Members) (files blocked : List Json) :
    Checked Unit := do
  let raw ← lift (iterate (getOr (lit "raw") (.arr []) manifest))
  let shareable ← lift (iterate (getOr (lit "shareable") (.arr []) manifest))
  let s ← loop (checkFileRow R d (rowsByName raw) (rowsByName shareable)) {} 0 files
  let seen ← loop (checkBlockedRow s.sources (rowsByName raw)) [] 0 blocked
  reportIf (!sameSet (s.sources ++ seen) ((rowsByName raw).map Prod.fst))
    (lit "redaction report does not cover every raw artifact exactly once")
  reportIf (!sameSet s.outputs ((rowsByName shareable).map Prod.fst))
    (lit "redaction report does not cover every shareable artifact")
  reportIf (!pyEq (get (lit "totals") redaction) (.obj s.totals))
    (lit "redaction report totals do not match file associations")

/-- `_verify_redaction_associations` -/
def verifyRedactionAssociations (d : Dep) (manifest redaction : Members) : Checked Unit :=
  if keysEq redaction reportFields && pyEq (get (lit "schema_version") redaction)
    (.str (lit "1.0")) then do
    reportIf (!pyEq (get (lit "dep_id") redaction) (get (lit "dep_id") manifest))
      (lit "redaction report dep_id does not match manifest")
    match get (lit "files") redaction, get (lit "blocked") redaction with
    | .arr files, .arr blocked => checkAssociations R d manifest redaction files blocked
    | .arr _, _ => report (lit "redaction report blocked must be an array")
    | _, _ => report (lit "redaction report files must be an array")
  else report (lit "redaction report has an invalid contract")

/-! ## The package -/

def phases : List PyStr := ["red", "evidence", "fix", "green", "proof"].map lit

/-- `REQUIRED_DOCS`, by the number of the phase. -/
def requiredDocs : Nat → List PyStr
  | 0 => ["reproduction.md"].map lit
  | 1 => ["reproduction.md", "redaction-report.json"].map lit
  | 2 => ["reproduction.md", "root-cause-hypothesis.md", "fix-scope.md",
      "redaction-report.json"].map lit
  | 3 => ["reproduction.md", "root-cause-hypothesis.md", "fix-scope.md", "regression-evidence.md",
      "verification.md", "redaction-report.json"].map lit
  | _ => ["reproduction.md", "root-cause-hypothesis.md", "fix-scope.md", "regression-evidence.md",
      "verification.md", "rollback.md", "redaction-report.json"].map lit

/-- A name that an interrupted transaction leaves behind. -/
def isResidue (name : PyStr) : Bool :=
  ((lit ".attach-").isPrefixOf name && containsText (lit ".pending-") name)
    || [".sddgov.attachment-stage-", ".sddgov.attachment-claim-", ".sddgov.control-stage-",
      ".sddgov.control-new-",
        ".sddgov.control-old-", ".sddgov.redaction-stage-", ".sddgov.redaction-claim-"].any
      (fun mark => (lit mark).isPrefixOf name)
    || (lit ".redact-pending-").isPrefixOf name
    || [".control-pending-", ".cleanup-pending-"].any fun mark => containsText (lit mark) name

/-- `st_dev`, `st_ino`, `st_size` and `st_mtime_ns` -/
structure Identity where
  device : Nat
  inode : Nat
  size : Nat
  modified : Nat
  deriving DecidableEq

def FileEntry.identity (f : FileEntry) : Identity :=
    ⟨f.device, f.inode, f.content.length, f.modified⟩

/-- A control document: its bytes and the identity of its file. -/
structure Control where
  bytes : Bytes
  identity : Identity

/-- One of the two control documents; an override stands for its bytes. -/
def readControl (d : Dep) (overrides : List (PyStr × Bytes)) (name : PyStr) :
    Checked (Option Control) :=
  match readRegularBytesAt d.documents name name maxControlBytes with
  | .error .missing => do
    report (lit "missing " ++ name)
    pure none
  | .error (.bad message) => do
    report message
    pure none
  | .ok f =>
      pure (some ⟨((overrides.find? fun o => o.1 == name).map Prod.snd).getD f.content, f.identity⟩)

/-- The errors before the control documents are parsed. -/
def readControls (d : Dep) (strict portable : Bool) (overrides : List (PyStr × Bytes)) :
    Checked (Option Control × Option Control) := do
  reportAll ((d.documents.filter fun e => isResidue e.1).map fun e =>
    lit "pending Evidence transaction residue: " ++ e.1)
  reportIf (portable && !strict) (lit "portable verification requires strict mode")
  let summary ← readControl d overrides (lit "summary.yaml")
  let manifest ← readControl d overrides (lit "manifest.json")
  pure (summary, manifest)

/-- `len(document).to_bytes(8, "big")` -/
def lengthBytes (n : Nat) : Bytes := (List.range 8).reverse.map fun k => byte (n / 256 ^ k % 256)

/-- `json.loads(document.decode("utf-8"))`; a text that cannot be read is an error of the
document. -/
def parseControl (limit : Nat) (raw : Bytes) : Except Exn (Except PyStr Json) :=
  match utf8Decode raw with
  | none => .ok (.error (lit "invalid machine-readable document: UnicodeDecodeError"))
  | some text =>
    match loads limit text with
    | .ok v => .ok (.ok v)
    | .error .decode => .ok (.error (lit "invalid machine-readable document: JSONDecodeError"))
    | .error e => .error (.ofJson e)

/-- `field in summary` -/
def containsField (summary : Json) (name : PyStr) : Except Exn Bool :=
  match summary with
  | .obj m => .ok (hasKey name m)
  | .arr xs => .ok (xs.any fun x => pyEq x (.str name))
  | .str s => .ok (containsText name s)
  | _ => .error .type

def summaryFields : List PyStr :=
  ["dep_id", "issue", "risk_level", "workflow", "expected_behavior", "actual_behavior",
    "environment"].map lit

/-- What `set(manifest)` and `manifest.get` make of a manifest that is no object. -/
def manifestMembers : Json → Except Exn Members
  | .obj m => .ok m
  | .str _ => .error .attribute
  | .arr xs => if xs.any fun x => isObject x || isArray x then .error .type else .error .attribute
  | _ => .error .type

/-- `value.get`, which only an object has. -/
def members : Json → Except Exn Members
  | .obj m => .ok m
  | _ => .error .attribute

/-- The number of the first character or truncated sequence: how a UTF-8 text starts. -/
def firstChar? (raw : Bytes) : Option (CodePoint × Nat) :=
  [1, 2, 3, 4].findSome? fun k =>
    match utf8Decode (raw.take k) with
    | some [c] => some (c, k - 1)
    | _ => none

/-- `raw.decode("utf-8", errors="ignore")`; the number counts the bytes still to be passed over. -/
def decodeIgnoring : Nat → Bytes → PyStr
  | _, [] => []
  | skip + 1, _ :: raw => decodeIgnoring skip raw
  | 0, b :: raw =>
    match firstChar? (b :: raw) with
    | some (c, more) => c :: decodeIgnoring more raw
    | none => decodeIgnoring 0 raw

/-- The document has a line that is neither blank nor a heading nor left to do. -/
def isCompleted (document : Bytes) : Bool :=
  (splitLines (decodeIgnoring 0 document)).any fun line =>
    !isBlank line && (line.dropWhile isSpace).head? != some (cp 0x23)
      && !containsText (lit "TODO") line && !containsText (lit "<!--") line
        && !containsText (lit "-->") line

/-- One of the documents a phase requires. -/
def checkDocument (d : Dep) (name : PyStr) : Checked Unit :=
  match readRegularBytesAt d.documents name name maxControlBytes with
  | .error .missing => report (lit "missing " ++ name)
  | .error (.bad message) => report message
  | .ok f =>
    reportIf ((lit ".md").isSuffixOf name && !isCompleted f.content)
      (lit "template not completed: " ++ name)

/-- The schema of the summary, and its fields. -/
def checkSummary (summary : Json) : Checked Unit := do
  match R.schemaErrors summary with
  | .ok errors => reportAll (errors.map (lit "summary schema: " ++ ·))
  | .error e => if e.isOsOrValue then report (lit "summary schema unavailable: " ++ exnText e) else
      raise e
  each (fun name => do
    let found ← lift (containsField summary name)
    reportIf (!found) (lit "summary missing " ++ name)) summaryFields

/-- The fields of the manifest's root. -/
def checkManifestRoot (summary : Json) (manifest : Members) : Checked Members := do
  let valid ← lift
    (if keysEq manifest (["schema_version", "dep_id", "raw", "shareable"].map lit) then
      memberOfSet (get (lit "schema_version") manifest) (["1.0", "1.1"].map lit)
    else .ok false)
  reportIf (!valid) (lit "manifest has an invalid root contract")
  let summary ← lift (members summary)
  reportIf (!pyEq (get (lit "dep_id") manifest) (get (lit "dep_id") summary))
    (lit "manifest dep_id does not match summary")
  pure summary

/-- `history` is the phases up to this one. -/
def isHistory (phase : Nat) : Json → Bool
  | .arr items =>
    let expected := phases.take (phase + 1)
    let actual := items.filterMap fun item =>
      match item with
      | .obj m => some (get (lit "phase") m)
      | _ => none
    pyEq (.arr actual) (.arr (expected.map .str)) && items.length == expected.length
  | _ => false

/-- `_load_at(dep_fd, "redaction-report.json")`, or `None`. -/
def loadReport (d : Dep) : Checked Json :=
  let name := lit "redaction-report.json"
  match readRegularBytesAt d.documents name (lit "machine-readable document " ++ name)
    maxControlBytes with
  | .error .missing => pure .null
  | .error (.bad message) => do
    report (lit "invalid redaction report: " ++ message)
    pure .null
  | .ok f =>
    match utf8Decode f.content with
    | none => do
      report (lit "invalid redaction report: UnicodeDecodeError")
      pure .null
    | some text =>
      match loads (R.limit .report) text with
      | .ok v => pure v
      | .error e =>
        if (Exn.ofJson e).isOsOrValue then do
          report (lit "invalid redaction report: " ++ exnText (.ofJson e))
          pure .null
        else raise (.ofJson e)

/-- The redaction report and the manifest rows it is about. -/
def checkReport (d : Dep) (manifest : Members) (redaction : Json) : Checked Unit :=
  if redaction = .null then pure ()
  else do
    let redaction ← lift (members redaction)
    reportIf (truthy (get (lit "blocked") redaction))
      (lit "redaction report contains blocked artifacts requiring manual review")
    reportIf (!truthy (get (lit "shareable") manifest)) (lit "no shareable redacted evidence")
    verifyRedactionAssociations R d manifest redaction

/-- The collected evidence. -/
def checkEvidence (d : Dep) (manifest : Members) (portable : Bool) : Checked Unit := do
  reportIf (!truthy (get (lit "raw") manifest)) (lit "no collected evidence")
  let redaction ← loadReport R d
  checkReport R d manifest redaction
  verifyManifestArtifacts R d manifest portable

/-- The evidence is looked at from the second phase on, and by a strict verification. -/
def checkCollected (d : Dep) (manifest : Members) (portable due : Bool) : Checked Unit :=
  if due then checkEvidence R d manifest portable else pure ()

/-- The attachments of the summary are shareable artifacts. -/
def checkAttachments (summary manifest : Members) : Checked Unit := do
  let attachments ← lift (iterate (getOr (lit "attachments") (.arr []) summary))
  let objects := attachments.filterMap fun a =>
    match a with
    | .obj m => some m
    | _ => none
  reportIf (objects.any fun m => (lit "private/").isPrefixOf
    (R.str (getOr (lit "path") (.str []) m)))
    (lit "summary attachments must never reference private/raw evidence")
  let rows ← lift (iterate (getOr (lit "shareable") (.arr []) manifest))
  let registered ← lift (rows.filterMapM rowByPath)
  each (fun m => do
    let path ← lift (hashable (get (lit "path") m))
    reportIf (!((registered.reverse.find? fun r => pyEq r.1 path).any fun r =>
        pyEq (get (lit "sha256") r.2) (get (lit "sha256") m)))
      (lit "summary attachment is not bound to a matching shareable artifact")) objects
where
  /-- A dictionary key. -/
  hashable : Json → Except Exn Json
    | .arr _ => .error .type
    | .obj _ => .error .type
    | v => .ok v
  rowByPath : Json → Except Exn (Option (Json × Members))
    | .obj m => do
      let path ← hashable (get (lit "path") m)
      .ok (some (path, m))
    | _ => .ok none

/-- Everything after the phase is known. -/
def checkPhase (d : Dep) (strict portable : Bool) (summary manifest workflow : Members)
    (phase : Nat) :
    Checked Unit := do
  reportIf (!isHistory phase (get (lit "history") workflow))
    (lit "workflow history must be the exact phase prefix: "
      ++ joinTexts (lit " -> ") (phases.take (phase + 1)))
  reportIf (strict && phase != 4)
    (lit "strict verification requires proof phase, found " ++ phases.getD phase [])
  each (checkDocument d) (requiredDocs (if strict then 4 else phase))
  checkCollected R d manifest portable (1 ≤ phase || strict)
  checkAttachments R summary manifest

/-- The parsed documents and what they name. -/
def checkPackage (d : Dep) (strict portable : Bool) (summary manifest : Json) : Checked Unit := do
  checkSummary R summary
  let manifest ← lift (manifestMembers manifest)
  let summary ← checkManifestRoot summary manifest
  let workflow ← lift (members (getOr (lit "workflow") (.obj []) summary))
  match phases.findIdx? fun name => pyEq (get (lit "phase") workflow) (.str name) with
  | none => report (lit "invalid workflow phase")
  | some phase => checkPhase R d strict portable summary manifest workflow phase

/-- What `_verify_open` returns. -/
structure Verification where
  errors : List PyStr
  summary : Option Json
  manifest : Option Json
  identities : List (PyStr × Identity)
  snapshotDigest : Option PyStr

/-- `_control_snapshot_digest` -/
def controlSnapshotDigest (documents : List (PyStr × Bytes)) : PyStr :=
  R.crypto.sha256 (documents.foldl (fun read document =>
    read ++ (utf8Encode document.1).getD [] ++ [byte 0] ++ lengthBytes document.2.length
      ++ document.2)
      ((utf8Encode (lit "SDDGOV-DEP-CONTROL-SNAPSHOT-v1")).getD [] ++ [byte 0]))

/-- The end of `_verify_open`, with both control documents read. -/
def verifyControls (d : Dep) (strict portable : Bool) (summary manifest : Control) :
    Except Exn Verification := do
  let digest := controlSnapshotDigest R
    [(lit "summary.yaml", summary.bytes), (lit "manifest.json", manifest.bytes)]
  let identities := [(lit "summary.yaml", summary.identity),
    (lit "manifest.json", manifest.identity)]
  let summary ← parseControl (R.limit .control) summary.bytes
  match summary with
  | .error message => .ok ⟨[message], none, none, identities, some digest⟩
  | .ok summary => do
    let manifest ← parseControl (R.limit .control) manifest.bytes
    match manifest with
    | .error message => .ok ⟨[message], none, none, identities, some digest⟩
    | .ok manifest => do
      let (_, errors) ← (checkPackage R d strict portable summary manifest : Except Exn
        (Unit × List PyStr))
      .ok ⟨errors, some summary, some manifest, identities, some digest⟩

/-- `_verify_open` -/
def verifyOpen (d : Dep) (strict portable : Bool) (overrides : List (PyStr × Bytes)) :
    Except Exn Verification := do
  let (controls, errors) ← (readControls d strict portable overrides : Except Exn (_ × List PyStr))
  match controls, errors with
  | (some summary, some manifest), [] => verifyControls R d strict portable summary manifest
  | (summary, manifest), errors =>
    let identity := fun (name : String) (c : Option Control) => c.toList.map fun c =>
      (lit name, c.identity)
    .ok ⟨errors, none, none, identity "summary.yaml" summary
      ++ identity "manifest.json" manifest, none⟩

/-- `verify`, for a package whose root is a safe directory. -/
def verify (d : Dep) (strict portable : Bool) : Except Exn (List PyStr) :=
  match verifyOpen R d strict portable [] with
  | .ok v => .ok v.errors
  | .error e =>
    if e.isOsOrValue then .ok [lit "Evidence filesystem boundary changed or is unsafe: "
      ++ exnText e] else .error e

end Verify

end SddGov.Evidence
