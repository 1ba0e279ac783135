import SddGov.Evidence.Verify

/-!
# What the operations write

`make_dep`, `collect` and `redact` on a package that nobody else touches and on
a file system that works. A package is its two zones and the parsed documents
that these operations write; publishing a document in one piece is
`_MutationTransaction`'s business (`Transaction`).

`collect` compares the suffix of the label with that of the input. A label
`.log` has no suffix for `Path`, but the name `terminal--.log` has one, and the
row still records the input's.
-/

namespace SddGov.Evidence

open SddGov.Effect SddGov.Python

/-- The rules of the verification, and `str.isalnum` for one character. -/
structure ProducerRules extends Rules where
  alnum : CodePoint → Bool

structure Package where
  documents : Entries
  depId : PyStr
  manifest : Members
  redaction : Option Members
  raw : Entries
  shareable : Entries

/-- The tree that the verification sees. -/
def Package.dep (p : Package) :
    Dep := ⟨p.documents, .opened p.raw, .opened p.shareable, fun _ => false⟩

/-! ## `make_dep` -/

/-- `DEP_ID_PATTERN.fullmatch` -/
def isDepId (s : PyStr) : Bool :=
  (lit "DEP-").isPrefixOf s && !(s.drop 4).isEmpty && (s.drop 4).all fun c =>
    (0x41 ≤ c.val && c.val ≤ 0x5A) || (0x61 ≤ c.val && c.val ≤ 0x7A)
      || (0x30 ≤ c.val && c.val ≤ 0x39)
      || c.val == 0x2E || c.val == 0x5F || c.val == 0x2D

def newManifest (depId : PyStr) (raw shareable : List Json) : Members :=
  [(lit "schema_version", .str (lit "1.1")), (lit "dep_id", .str depId), (lit "raw", .arr raw),
    (lit "shareable", .arr shareable)]

/-- `make_dep`, with the templates it copies and the id it has chosen. -/
def makeDep (documents : Entries) (depId : PyStr) : Except Exn Package := do
  require (isDepId depId) "DEP ID must match DEP-[A-Za-z0-9._-]+ and cannot contain a path"
  .ok ⟨documents, depId, newManifest depId [] [], none, [], []⟩

/-! ## `collect` -/

/-- What the file system gives a new file. -/
structure FileStamp where
  device : Nat
  inode : Nat
  modified : Nat

def FileStamp.file (s : FileStamp) (content : Bytes) :
    FileEntry := ⟨content, 1, s.device, s.inode, s.modified⟩

/-- The arguments of `collect`, what is read at the input, and the stamp of the new file. The label
is empty where there is none. -/
structure Input where
  collector : PyStr
  name : PyStr
  label : PyStr
  content : Bytes
  collectedAt : Instant
  fileStamp : FileStamp

/-- `text.rstrip(" .")` -/
def stripEnd (s : PyStr) : PyStr :=
    (s.reverse.dropWhile fun c => c == cp 0x20 || c == cp 0x2E).reverse

section Produce

variable (P : ProducerRules)

/-- `source_suffix` -/
def Input.suffix (i : Input) : PyStr := P.lower (suffixOf i.name)

/-- `label or default_label` -/
def requestedLabel (ordinal : Nat) (i : Input) : PyStr :=
  if i.label = [] then lit "artifact-" ++ natText ordinal ++ i.suffix P else i.label

def safeLabel (label : PyStr) : PyStr :=
  label.map fun c => if P.alnum c || c == cp 0x2D || c == cp 0x5F || c == cp 0x2E then
    c else cp 0x2D

/-- The name of the raw artifact. -/
def artifactName (ordinal : Nat) (i : Input) : Except Exn PyStr := do
  let label := requestedLabel P ordinal i
  require (stripEnd label == label) "evidence filename is unsafe after platform normalization"
  let safe := safeLabel P label
  let labelSuffix := P.lower (suffixOf safe)
  require (labelSuffix.isEmpty || labelSuffix == i.suffix P)
    "evidence label suffix must match the collector input type"
  .ok (i.collector ++ lit "--" ++ safe ++ (if labelSuffix.isEmpty then i.suffix P else []))

/-- `_bounded_filename`, and the name as a call takes it. -/
def boundedFilename (entries : Entries) (name : PyStr) : Except Exn Unit := do
  require (name != lit "." && name != lit ".." && stripEnd name == name && !name.isEmpty)
    "evidence filename is unsafe after platform normalization"
  require (entries.find name != some .symlink) "evidence destination must not be a symlink"
  require (!name.contains (cp 0x2F)) "evidence destination escapes its collector zone"
  match unusableName name with
  | some message => .error (.value message)
  | none => .ok ()

/-- The row of a raw artifact. -/
def rawRow (i : Input) (name mediaType : PyStr) : Members :=
  [(lit "collector", .str i.collector), (lit "path", .str (lit "private/raw/" ++ name)),
    (lit "source_suffix", .str (i.suffix P)), (lit "media_type", .str mediaType),
    (lit "sha256", .str (P.crypto.sha256 i.content)), (lit "size", .int i.content.length),
    (lit "collected_at", .str (stamp i.collectedAt)), (lit "shareable", .bool false)]

/-- `manifest["raw"]`, which is appended to. -/
def rawRows (manifest : Members) : Except Exn (List Json) :=
  match get (lit "raw") manifest with
  | .arr rows => .ok rows
  | _ => .error .attribute

/-- `collect` -/
def collect (p : Package) (i : Input) : Except Exn Package := do
  require (collectors.contains i.collector) "unsupported collector"
  require p.redaction.isNone "Evidence collection is closed after redaction; create a new DEP"
  require (!truthy (get (lit "shareable") p.manifest))
    "Evidence collection is closed after shareable artifacts exist"
  require (i.content.length ≤ maxArtifactBytes) "collector input exceeds its bound"
  let rows ← rawRows p.manifest
  let name ← artifactName P (rows.length + 1) i
  boundedFilename p.raw name
  require (p.raw.find name).isNone "Evidence artifact already exists"
  let mediaType ← artifactMediaType P.toRules (i.suffix P) i.content
  .ok { p with
    raw := p.raw ++ [(name, .file (i.fileStamp.file i.content))]
    manifest := setMember (lit "raw") (.arr (rows ++ [.obj (rawRow P i name mediaType)]))
      p.manifest }

/-- Several calls, one after another. -/
def collectAll (p : Package) : List Input → Except Exn Package
  | [] => .ok p
  | i :: inputs => do
    let p ← collect P p i
    collectAll p inputs

/-! ## `redact` -/

/-- The report so far and the outputs. -/
structure Redaction where
  files : List Json := []
  blocked : List Json := []
  totals : Members := []
  /-- `observed_raw` -/
  observed : List (PyStr × PyStr × Nat) := []
  outputs : Entries := []

def blockedRow (name reason : PyStr) (content : Bytes) : Json :=
  .obj [(lit "file", .str name), (lit "reason", .str reason),
    (lit "sha256", .str (P.crypto.sha256 content)),
    (lit "size", .int content.length)]

def fileRow (name : PyStr) (source output : Bytes) (counts : Members) : Members :=
  [(lit "source", .str name), (lit "output", .str name),
    (lit "source_sha256", .str (P.crypto.sha256 source)), (lit "source_size", .int source.length),
    (lit "output_sha256", .str (P.crypto.sha256 output)), (lit "output_size", .int output.length),
    (lit "redactions", .obj counts)]

/-- A source that is blocked. -/
def Redaction.block (r : Redaction) (name reason : PyStr) (content : Bytes) : Redaction :=
  { r with
    blocked := r.blocked ++ [blockedRow P name reason content]
    observed := r.observed ++ [(name, P.crypto.sha256 content, content.length)] }

/-- A source whose redaction is published. -/
def Redaction.publish (r : Redaction) (name : PyStr) (source output : Bytes) (counts : Members)
    (file : FileStamp) : Redaction :=
  { r with
    files := r.files ++ [.obj (fileRow P name source output counts)]
    totals := addCounts r.totals counts
    observed := r.observed ++ [(name, P.crypto.sha256 source, source.length)]
    outputs := r.outputs ++ [(name, .file (file.file output))] }

/-- `_stream_text_at`: the text is redacted and its redaction is written. -/
def streamText (text : PyStr) : Except Exn (Bytes × Members) := do
  let redacted ← P.redactText text
  match utf8Encode redacted.1 with
  | none => .error (valueError "UnicodeEncodeError")
  | some output => do
    require (output.length ≤ maxArtifactBytes) "redaction destination is oversized"
    .ok (output, redacted.2)

/-- One source of `redact_files`. -/
def redactFile (files : PyStr → FileStamp) (raw : Entries) (metadata : List (PyStr × Members))
    (r : Redaction)
    (name : PyStr) : Except Exn Redaction :=
  match readRegularBytesAt raw name (lit "redaction source") maxArtifactBytes with
  | .error _ => .error (valueError "redaction source cannot be opened safely")
  | .ok f =>
    let suffix := P.lower (suffixOf name)
    if isHarRow ((findRow name metadata).getD []) || suffix == lit ".har" then
      .ok (r.block P name (lit "har_requires_dedicated_body_stripping") f.content)
    else if !textSuffixes.contains suffix then
      .ok (r.block P name (lit "binary_requires_manual_visual_redaction") f.content)
    else
      match utf8Decode f.content with
      | none => .ok (r.block P name (lit "non_utf8_requires_manual_review") f.content)
      | some text => do
        let written ← streamText P text
        .ok (r.publish P name f.content written.1 written.2 (files name))

def redactFiles (files : PyStr → FileStamp) (raw : Entries) (metadata : List (PyStr × Members))
    (r : Redaction) :
    List PyStr → Except Exn Redaction
  | [] => .ok r
  | name :: names => do
    let r ← redactFile P files raw metadata r name
    redactFiles files raw metadata r names

/-- A row with its name, in `raw_by_name`. -/
def namedRow : Json → Except Exn (PyStr × Members)
  | .obj m =>
    match getOr (lit "path") (.str []) m with
    | .str path => .ok (nameOf path, m)
    | _ => .error .type
  | _ => .error (valueError "Evidence manifest contains duplicate or invalid raw paths")

/-- `row["sha256"], row["size"] = observed` -/
def observeRow (observed : List (PyStr × PyStr × Nat)) (row : PyStr × Members) : Except Exn Json :=
  match observed.find? fun o => o.1 == row.1 with
  | none => .error (.value (lit "raw artifact is not covered by redaction: " ++ row.1))
  | some o =>
      .ok (.obj (setMember (lit "size") (.int o.2.2) (setMember (lit "sha256") (.str o.2.1) row.2)))

/-- The shareable row of a published file. -/
def shareableRow : Json → Json
  | .obj m =>
    match get (lit "output") m with
    | .str output => .obj [(lit "path", .str (lit "shareable/artifacts/" ++ output)),
        (lit "sha256", get (lit "output_sha256") m), (lit "size", get (lit "output_size") m),
        (lit "shareable", .bool true)]
    | _ => .null
  | _ => .null

/-- The finished report. -/
def Redaction.report (r : Redaction) (depId : PyStr) (generatedAt : Instant) : Members :=
  [(lit "schema_version", .str (lit "1.0")), (lit "files", .arr r.files),
    (lit "blocked", .arr r.blocked),
    (lit "totals", .obj r.totals), (lit "dep_id", .str depId),
      (lit "generated_at", .str (stamp generatedAt))]

/-- `redact` -/
def redact (p : Package) (generatedAt : Instant) (files : PyStr → FileStamp) :
    Except Exn Package := do
  require p.redaction.isNone "redaction transaction requires no existing redaction report"
  let rows ← rawRows p.manifest
  let byName ← rows.mapM namedRow
  require (decide (byName.map Prod.fst).Nodup)
    "Evidence manifest contains duplicate or invalid raw paths"
  require p.shareable.isEmpty "redaction transaction requires an empty shareable artifact zone"
  let r ← redactFiles P files p.raw byName {}
    ((p.raw.map Prod.fst).insertionSort fun a b => strLe a b = true)
  let rows ← byName.mapM (observeRow r.observed)
  .ok { p with
    shareable := r.outputs
    redaction := some (r.report p.depId generatedAt)
    manifest := setMember (lit "shareable") (.arr (r.files.map shareableRow))
      (setMember (lit "raw") (.arr rows) p.manifest) }

end Produce

end SddGov.Evidence
