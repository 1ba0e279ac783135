import SddGov.Evidence.Names

/-!
# What a run leaves in the package

A run of `collect`s is a list of artifacts, each with the input it came from
(`Artifact.Of`): the package is the one of the list (`collectAll_ok`). A
`redact` that blocks nothing is a list of outputs (`redactFiles_ok`), and it
leaves the rows of the raw artifacts as they are (`redact_ok`).
-/

namespace SddGov.Evidence

open SddGov.Effect SddGov.Python

/-- What Python promises of `lower`, `str` and `isalnum`, and `redact_text` of itself: it is
idempotent, and counts each rule that it has applied. -/
structure ProducerRules.Lawful (P : ProducerRules) : Prop where
  hex : P.crypto.Hex
  str_text : ∀ s, P.str (.str s) = s
  lower_nil : P.lower [] = []
  lower_idem : ∀ s, P.lower (P.lower s) = P.lower s
  lower_suffix : ∀ t, t ≠ [] → dot ∉ t → slash ∉ t →
    ∃ t', P.lower (dot :: t) = dot :: t' ∧ t' ≠ [] ∧ dot ∉ t' ∧ slash ∉ t'
  alnum_backslash : P.alnum backslash = false
  redact_idem : ∀ s out counts, P.redactText s = .ok (out, counts) →
    ∃ more, P.redactText out = .ok (out, more)
  redact_counts : ∀ s out counts, P.redactText s = .ok (out, counts) →
    (keys counts).Nodup ∧ (counts? (.obj counts)).isSome = true

/-! ## Suffixes in lower case -/

section Lower

variable {P : ProducerRules} (hP : P.Lawful)

include hP

/-- The suffix of an input is empty, or a dot and what follows it. -/
theorem lower_suffixOf (s : PyStr) : P.lower (suffixOf s) = [] ∧ suffixOf s = [] ∨
    ∃ t, P.lower (suffixOf s) = dot :: t ∧ t ≠ [] ∧ dot ∉ t ∧ slash ∉ t ∧ suffixOf s ≠ [] := by
  rcases suffixOf_spec s with hempty | ⟨pre, t, hname, hpre, ht, hdot, hsuffix⟩
  · left
    rw [hempty]
    exact ⟨hP.lower_nil, rfl⟩
  · right
    have hslash : slash ∉ t := by
      intro hmem
      apply slash_nameOf s
      rw [hname]
      exact List.mem_append_right _ (List.mem_cons_of_mem _ hmem)
    obtain ⟨t', hlower, ht', hdot', hslash'⟩ := hP.lower_suffix t ht hdot hslash
    refine ⟨t', ?_, ht', hdot', hslash', ?_⟩
    · rw [hsuffix, hlower]
    · rw [hsuffix]
      exact List.cons_ne_nil _ _

theorem Input.suffix_eq_nil (i : Input) : i.suffix P = [] ↔ suffixOf i.name = [] := by
  unfold Input.suffix
  rcases lower_suffixOf hP i.name with ⟨hlower, hempty⟩ | ⟨t, hlower, -, -, -, hne⟩
  · rw [hlower, hempty]
  · simp [hlower, hne]

theorem Input.lower_suffix (i : Input) : P.lower (i.suffix P) = i.suffix P := hP.lower_idem _

end Lower

/-! ## Artifacts -/

/-- A raw artifact with the input it came from. -/
structure Artifact where
  input : Input
  name : PyStr
  mediaType : PyStr

/-- A name that `_bounded_filename` lets pass. -/
structure IsFilename (name : PyStr) : Prop where
  component : IsComponent name
  notParent : name ≠ lit ".."
  usable : unusableName name = none

section Artifacts

variable (P : ProducerRules)

/-- What `collect` has checked of an artifact and its input. -/
structure Artifact.Of (a : Artifact) : Prop where
  collector : a.input.collector ∈ collectors
  bound : a.input.content.length ≤ maxArtifactBytes
  named : ∃ ordinal, artifactName P ordinal a.input = .ok a.name
  filename : IsFilename a.name
  mediaType : artifactMediaType P.toRules (a.input.suffix P) a.input.content = .ok a.mediaType

def Artifact.row (a : Artifact) : Members := rawRow P a.input a.name a.mediaType

def Artifact.entry (a : Artifact) : PyStr × Entry :=
    (a.name, .file (a.input.fileStamp.file a.input.content))

/-- The package after the artifacts were collected. -/
def collected (documents : Entries) (depId : PyStr) (as : List Artifact) : Package :=
  ⟨documents, depId, newManifest depId (as.map fun a => .obj (a.row P)) [], none,
    as.map Artifact.entry, []⟩

end Artifacts

section Collect

variable {P : ProducerRules} {documents : Entries} {depId : PyStr}

/-- A bounded name is a name of a file. -/
theorem boundedFilename_ok {entries : Entries} {name : PyStr} {u : Unit}
    (h : boundedFilename entries name = .ok u) : IsFilename name := by
  unfold boundedFilename at h
  obtain ⟨_, hname, hrest⟩ := except_bind_ok.mp h
  obtain ⟨_, -, hrest⟩ := except_bind_ok.mp hrest
  obtain ⟨_, hslash, hrest⟩ := except_bind_ok.mp hrest
  rw [require_ok] at hname hslash
  simp only [Bool.and_eq_true, bne_iff_ne, ne_eq, Bool.not_eq_true', List.isEmpty_eq_false_iff]
    at hname
  refine ⟨⟨?_, hname.2, hname.1.1.1⟩, hname.1.1.2, ?_⟩
  · simpa [slash] using hslash
  · cases husable : unusableName name with
    | none => rfl
    | some message =>
      rw [husable] at hrest
      simp at hrest

theorem find_entries_isNone {as : List Artifact} {name : PyStr} :
    (Entries.find name (as.map Artifact.entry)).isNone = true ↔ name ∉ as.map Artifact.name := by
  unfold Entries.find
  simp [Artifact.entry]

theorem rawRows_collected (as : List Artifact) :
    rawRows (collected P documents depId as).manifest = .ok (as.map fun a => .obj (a.row P)) := rfl

/-- One `collect` adds one artifact. -/
theorem collect_ok {as : List Artifact} {i : Input} {p : Package}
    (h : collect P (collected P documents depId as) i = .ok p) :
    ∃ a : Artifact, a.input = i ∧ a.Of P ∧ a.name ∉ as.map Artifact.name
    ∧ p = collected P documents depId (as ++ [a]) := by
  unfold collect at h
  obtain ⟨_, hcollector, h⟩ := except_bind_ok.mp h
  obtain ⟨_, -, h⟩ := except_bind_ok.mp h
  obtain ⟨_, -, h⟩ := except_bind_ok.mp h
  obtain ⟨_, hbound, h⟩ := except_bind_ok.mp h
  obtain ⟨rows, hrows, h⟩ := except_bind_ok.mp h
  obtain ⟨name, hname, h⟩ := except_bind_ok.mp h
  obtain ⟨_, hfilename, h⟩ := except_bind_ok.mp h
  obtain ⟨_, hfresh, h⟩ := except_bind_ok.mp h
  obtain ⟨mediaType, hmedia, h⟩ := except_bind_ok.mp h
  rw [require_ok] at hcollector hbound hfresh
  rw [rawRows_collected] at hrows
  obtain rfl := Except.ok.inj hrows
  refine ⟨⟨i, name, mediaType⟩, rfl, ⟨by simpa using hcollector, by simpa using hbound, ⟨_, hname⟩,
    boundedFilename_ok hfilename, hmedia⟩, find_entries_isNone.mp hfresh, ?_⟩
  rw [← Except.ok.inj h]
  simp [collected, Artifact.entry, Artifact.row, newManifest, setMember, lit_inj]

/-- A run of `collect`s is a list of artifacts, one for each input, with different names. -/
theorem collectAll_ok {inputs : List Input} {as : List Artifact} {p : Package}
    (hnodup : (as.map Artifact.name).Nodup) (hof : ∀ a ∈ as, a.Of P)
    (h : collectAll P (collected P documents depId as) inputs = .ok p) :
    ∃ bs : List Artifact, p = collected P documents depId bs
    ∧ bs.map Artifact.input = as.map Artifact.input ++ inputs
      ∧ (bs.map Artifact.name).Nodup ∧ ∀ b ∈ bs, b.Of P := by
  induction inputs generalizing as with
  | nil =>
    refine ⟨as, (Except.ok.inj h).symm, ?_, hnodup, hof⟩
    rw [List.append_nil]
  | cons i inputs ih =>
    unfold collectAll at h
    obtain ⟨p', hstep, hrest⟩ := except_bind_ok.mp h
    obtain ⟨a, rfl, ha, hfresh, rfl⟩ := collect_ok hstep
    have hnodup' : ((as ++ [a]).map Artifact.name).Nodup := by
      rw [List.map_append, List.map_singleton, List.nodup_append]
      refine ⟨hnodup, List.nodup_singleton _, ?_⟩
      intro x hx y hy
      rw [List.mem_singleton] at hy
      intro hxy
      exact hfresh (hy ▸ hxy ▸ hx)
    have hof' : ∀ b ∈ as ++ [a], b.Of P := by
      intro b hb
      rcases List.mem_append.mp hb with hb | hb
      · exact hof b hb
      · rw [List.mem_singleton.mp hb]
        exact ha
    obtain ⟨bs, hp, hinputs, hrest⟩ := ih hnodup' hof' hrest
    refine ⟨bs, hp, ?_, hrest⟩
    rw [hinputs, List.map_append, List.append_assoc]
    rfl

end Collect

/-! ## Outputs -/

/-- A published output: its artifact, the text of the artifact, the redaction of that text with its
counts, and the bytes that are written. -/
structure Output where
  artifact : Artifact
  text : PyStr
  redacted : PyStr
  counts : Members
  content : Bytes

def Output.name (o : Output) : PyStr := o.artifact.name

section Outputs

variable (P : ProducerRules)

/-- What `redact_files` has checked of an output and its source. -/
structure Output.Of (o : Output) : Prop where
  artifact : o.artifact.Of P
  notHar : isHarRow (o.artifact.row P) = false
  suffix : P.lower (suffixOf o.name) ∈ textSuffixes
  text : utf8Decode o.artifact.input.content = some o.text
  redacted : P.redactText o.text = .ok (o.redacted, o.counts)
  content : utf8Encode o.redacted = some o.content
  bound : o.content.length ≤ maxArtifactBytes

def Output.fileRow (o : Output) : Members :=
  SddGov.Evidence.fileRow P o.name o.artifact.input.content o.content o.counts

def Output.entry (files : PyStr → FileStamp) (o : Output) :
    PyStr × Entry := (o.name, .file ((files o.name).file o.content))

/-- The row of an output in the manifest. -/
def Output.row (o : Output) : Members :=
  [(lit "path", .str (lit "shareable/artifacts/" ++ o.name)),
    (lit "sha256", .str (P.crypto.sha256 o.content)),
    (lit "size", .int o.content.length), (lit "shareable", .bool true)]

/-- The report and the outputs after these were published. -/
def published (files : PyStr → FileStamp) (os : List Output) : Redaction where
  files := os.map fun o => .obj (o.fileRow P)
  blocked := []
  totals := os.foldl (fun totals o => addCounts totals o.counts) []
  observed := os.map fun o => (o.name, P.crypto.sha256 o.artifact.input.content,
    o.artifact.input.content.length)
  outputs := os.map (Output.entry files)

/-- The package after a redaction that blocks nothing. -/
def finished (documents : Entries) (depId : PyStr) (generatedAt : Instant)
    (files : PyStr → FileStamp) (as : List Artifact)
    (os : List Output) : Package :=
  ⟨documents, depId, newManifest depId (as.map fun a => .obj (a.row P))
    (os.map fun o => .obj (o.row P)),
    some ((published P files os).report depId generatedAt), as.map Artifact.entry,
      os.map (Output.entry files)⟩

end Outputs

/-! ## Looking up by name -/

/-- Where the names differ, an element is found by its name. -/
theorem find?_fst {β : Type} {xs : List (PyStr × β)} (h : (xs.map Prod.fst).Nodup) {x : PyStr × β}
    (hx : x ∈ xs) :
    (xs.find? fun y => y.1 == x.1) = some x := by
  induction xs with
  | nil => simp at hx
  | cons y xs ih =>
    rw [List.map_cons, List.nodup_cons] at h
    rcases List.mem_cons.mp hx with rfl | hx
    · simp
    · have hne : y.1 ≠ x.1 := by
        intro heq
        exact h.1 (heq ▸ List.mem_map_of_mem hx)
      rw [List.find?_cons, beq_false_of_ne hne]
      exact ih h.2 hx

theorem Entries.find_mem {entries : Entries} (h : (entries.map Prod.fst).Nodup) {e : PyStr × Entry}
    (he : e ∈ entries) :
    entries.find e.1 = some e.2 := by
  unfold Entries.find
  rw [find?_fst h he]
  rfl

theorem readRegularBytesAt_file {entries : Entries} {name label : PyStr} {f : FileEntry}
    (hname : IsFilename name)
    (hfind : entries.find name = some (.file f)) (hlinks : f.links = 1)
    (hbound : f.content.length ≤ maxArtifactBytes) :
    readRegularBytesAt entries name label maxArtifactBytes = .ok f := by
  unfold readRegularBytesAt
  rw [if_neg (by simp [hname.component.nonempty, nameOf_component hname.component]), hname.usable]
  dsimp only
  rw [hfind]
  dsimp only
  rw [if_neg (by simp [hlinks]), if_neg (by omega)]

section Redact

/-- What is blocked stays blocked. -/
theorem redactFile_blocked {P : ProducerRules} {files : PyStr → FileStamp} {raw : Entries}
    {metadata : List (PyStr × Members)} {r r' : Redaction} {name : PyStr}
    (h : redactFile P files raw metadata r name = .ok r') (hblocked : r'.blocked = []) :
    r.blocked = [] := by
  unfold redactFile at h
  split at h
  · simp at h
  · simp only at h
    split at h
    · simp [← Except.ok.inj h, Redaction.block] at hblocked
    · split at h
      · simp [← Except.ok.inj h, Redaction.block] at hblocked
      · split at h
        · simp [← Except.ok.inj h, Redaction.block] at hblocked
        · obtain ⟨written, -, h⟩ := except_bind_ok.mp h
          rw [← Except.ok.inj h] at hblocked
          exact hblocked

/-- A blocked file stays blocked, so where none is there was none before. -/
theorem redactFiles_blocked {P : ProducerRules} {files : PyStr → FileStamp} {raw : Entries}
    {metadata : List (PyStr × Members)} {names : List PyStr} {r r' : Redaction}
    (h : redactFiles P files raw metadata r names = .ok r') (hblocked : r'.blocked = []) :
    r.blocked = [] := by
  induction names generalizing r with
  | nil =>
    rw [Except.ok.inj h]
    exact hblocked
  | cons name names ih =>
    unfold redactFiles at h
    obtain ⟨r₁, hstep, hrest⟩ := except_bind_ok.mp h
    exact redactFile_blocked hstep (ih hrest)

variable {P : ProducerRules} {documents : Entries} {depId : PyStr} {generatedAt : Instant}
    {files : PyStr → FileStamp}
variable {as : List Artifact} (hof : ∀ a ∈ as, a.Of P) (hnodup : (as.map Artifact.name).Nodup)

theorem artifact_eq_of_name (hnodup : (as.map Artifact.name).Nodup) {a b : Artifact} (ha : a ∈ as)
    (hb : b ∈ as)
    (h : a.name = b.name) : a = b := List.inj_on_of_nodup_map hnodup ha hb h

theorem nodup_entries (hnodup : (as.map Artifact.name).Nodup) :
    ((as.map Artifact.entry).map Prod.fst).Nodup := by
  rw [List.map_map]
  exact hnodup

include hof hnodup

theorem read_artifact {a : Artifact} (ha : a ∈ as) (label : PyStr) :
    readRegularBytesAt (as.map Artifact.entry) a.name label maxArtifactBytes
      = .ok (a.input.fileStamp.file a.input.content) :=
  readRegularBytesAt_file (hof a ha).filename
    (Entries.find_mem (nodup_entries hnodup) (List.mem_map_of_mem (f := Artifact.entry) ha)) rfl
      (hof a ha).bound

/-- A source is blocked, or its redaction is published. -/
theorem redactFile_ok {os : List Output} {a : Artifact} (ha : a ∈ as) {r : Redaction}
    (h : redactFile P files (as.map Artifact.entry) (as.map fun a => (a.name, a.row P))
      (published P files os) a.name
      = .ok r) :
    r.blocked ≠ [] ∨ ∃ o : Output, o.artifact = a ∧ o.Of P ∧ r = published P files (os ++ [o]) := by
  have hrow : findRow a.name (as.map fun a => (a.name, a.row P)) = some (a.row P) := by
    unfold findRow
    have hnames : ((as.map fun a => (a.name, a.row P)).map Prod.fst).Nodup := by
      rw [List.map_map]
      exact hnodup
    rw [find?_fst hnames (x := (a.name, a.row P))
      (List.mem_map_of_mem (f := fun a => (a.name, a.row P)) ha)]
    rfl
  unfold redactFile at h
  rw [read_artifact hof hnodup ha, hrow] at h
  simp only [Option.getD_some] at h
  split at h
  · left
    rw [← Except.ok.inj h]
    simp [Redaction.block]
  · next hhar =>
    split at h
    · left
      rw [← Except.ok.inj h]
      simp [Redaction.block]
    · next hsuffix =>
      split at h
      · left
        rw [← Except.ok.inj h]
        simp [Redaction.block]
      · next text htext =>
        right
        obtain ⟨⟨output, counts⟩, hwritten, h⟩ := except_bind_ok.mp h
        unfold streamText at hwritten
        obtain ⟨⟨redacted, counts'⟩, hredact, hwritten⟩ := except_bind_ok.mp hwritten
        dsimp only at hwritten
        split at hwritten
        · simp at hwritten
        · next content hcontent =>
          obtain ⟨_, hbound, hwritten⟩ := except_bind_ok.mp hwritten
          rw [require_ok] at hbound
          obtain ⟨rfl, rfl⟩ := Prod.mk.inj (Except.ok.inj hwritten)
          simp only [Bool.or_eq_true, not_or, Bool.not_eq_true] at hhar
          have hsuffix' : P.lower (suffixOf a.name) ∈ textSuffixes := by simpa using hsuffix
          refine ⟨⟨a, text, redacted, counts', content⟩, rfl,
            ⟨hof a ha, hhar.1, hsuffix', htext, hredact, hcontent, by simpa using hbound⟩, ?_⟩
          rw [← Except.ok.inj h]
          simp [published, Redaction.publish, Output.fileRow, Output.entry, Output.name,
            FileStamp.file]

/-- A run that blocks nothing publishes every source. -/
theorem redactFiles_ok {names : List PyStr} {r : Redaction} (os : List Output)
    (hnames : ∀ name ∈ names, name ∈ as.map Artifact.name)
    (hos : ∀ o ∈ os, o.artifact ∈ as ∧ o.Of P)
    (h : redactFiles P files (as.map Artifact.entry) (as.map fun a => (a.name, a.row P))
      (published P files os) names
      = .ok r) (hblocked : r.blocked = []) :
    ∃ all : List Output, r = published P files all
    ∧ all.map Output.name = os.map Output.name ++ names
      ∧ ∀ o ∈ all, o.artifact ∈ as ∧ o.Of P := by
  induction names generalizing os with
  | nil =>
    refine ⟨os, (Except.ok.inj h).symm, ?_, hos⟩
    rw [List.append_nil]
  | cons name names ih =>
    unfold redactFiles at h
    obtain ⟨r₁, hstep, hrest⟩ := except_bind_ok.mp h
    obtain ⟨a, ha, rfl⟩ := List.mem_map.mp (hnames name (List.mem_cons_self ..))
    rcases redactFile_ok hof hnodup ha hstep with hfirst | ⟨o, rfl, ho, rfl⟩
    · exact absurd (redactFiles_blocked hrest hblocked) hfirst
    · have hos' : ∀ o' ∈ os ++ [o], o'.artifact ∈ as ∧ o'.Of P := by
        intro o' ho'
        rcases List.mem_append.mp ho' with ho' | ho'
        · exact hos o' ho'
        · rw [List.mem_singleton.mp ho']
          exact ⟨ha, ho⟩
      obtain ⟨all, hr, hall, hrest⟩ := ih (os ++ [o])
        (fun name hname => hnames name (List.mem_cons_of_mem _ hname)) hos' hrest
      refine ⟨all, hr, ?_, hrest⟩
      rw [hall, List.map_append, List.append_assoc]
      rfl

omit hnodup in
/-- The rows of artifacts have names. -/
theorem namedRows_ok :
    (as.map fun a => Json.obj (a.row P)).mapM namedRow
    = .ok (as.map fun a => (a.name, a.row P)) := by
  induction as with
  | nil => rfl
  | cons a as ih =>
    have hrow : namedRow (.obj (a.row P)) = .ok (a.name, a.row P) := by
      have hname := nameOf_artifact .raw (hof a (List.mem_cons_self ..)).filename.component
      show Except.ok (nameOf (artifactPath .raw a.name), a.row P) = _
      rw [hname]
    rw [List.map_cons, List.mapM_cons, hrow, ih fun b hb => hof b (List.mem_cons_of_mem _ hb)]
    rfl

omit hof in
/-- Every row keeps its digest and its size. -/
theorem observeRow_ok {os : List Output} (hos : ∀ o ∈ os, o.artifact ∈ as) {a : Artifact}
    (ha : a ∈ as) {row : Json}
    (h : observeRow (published P files os).observed (a.name, a.row P) = .ok row) :
    row = .obj (a.row P) := by
  unfold observeRow at h
  split at h
  · simp at h
  · next seen hfind =>
    obtain ⟨o, ho, rfl⟩ := List.mem_map.mp (List.mem_of_find?_eq_some hfind)
    have hname : o.name = a.name := by simpa using List.find?_some hfind
    obtain rfl := artifact_eq_of_name hnodup (hos o ho) ha hname
    rw [← Except.ok.inj h]
    rfl

omit hof in
/-- The rows that are observed are those of the artifacts. -/
theorem observeRows_ok {os : List Output} (hos : ∀ o ∈ os, o.artifact ∈ as) {bs : List Artifact}
    (hbs : ∀ b ∈ bs, b ∈ as) {rows : List Json}
    (h : (bs.map fun a => (a.name, a.row P)).mapM (observeRow (published P files os).observed)
      = .ok rows) :
    rows = bs.map fun a => .obj (a.row P) := by
  induction bs generalizing rows with
  | nil => exact (Except.ok.inj h).symm
  | cons b bs ih =>
    rw [List.map_cons, List.mapM_cons] at h
    obtain ⟨row, hrow, h⟩ := except_bind_ok.mp h
    obtain ⟨rest, hrest, h⟩ := except_bind_ok.mp h
    rw [← Except.ok.inj h, List.map_cons, ih (fun c hc => hbs c (List.mem_cons_of_mem _ hc)) hrest,
      observeRow_ok hnodup hos (hbs b (List.mem_cons_self ..)) hrow]

/-- A redaction that blocks nothing leaves a package of artifacts and their outputs. -/
theorem redact_ok {q : Package}
    (h : redact P (collected P documents depId as) generatedAt files = .ok q)
    {report : Members} (hreport : q.redaction = some report)
    (hblocked : get (lit "blocked") report = .arr []) :
    ∃ os : List Output, (os.map Output.name).Perm (as.map Artifact.name)
    ∧ (∀ o ∈ os, o.artifact ∈ as ∧ o.Of P)
      ∧ q = finished P documents depId generatedAt files as os := by
  unfold redact at h
  obtain ⟨_, -, h⟩ := except_bind_ok.mp h
  obtain ⟨rows, hrows, h⟩ := except_bind_ok.mp h
  rw [rawRows_collected] at hrows
  obtain rfl := Except.ok.inj hrows
  obtain ⟨byName, hbyName, h⟩ := except_bind_ok.mp h
  rw [namedRows_ok hof] at hbyName
  obtain rfl := Except.ok.inj hbyName
  obtain ⟨_, -, h⟩ := except_bind_ok.mp h
  obtain ⟨_, -, h⟩ := except_bind_ok.mp h
  obtain ⟨r, hr, h⟩ := except_bind_ok.mp h
  obtain ⟨rows, hobserved, h⟩ := except_bind_ok.mp h
  obtain rfl := Except.ok.inj h
  obtain rfl := Option.some.inj hreport
  have hnone : r.blocked = [] := by
    have hrow : get (lit "blocked") (r.report depId generatedAt) = .arr r.blocked := rfl
    exact Json.arr.inj (hrow.symm.trans hblocked)
  have hsort := List.perm_insertionSort (fun a b => strLe a b = true)
    ((as.map Artifact.entry).map Prod.fst)
  have hentries : (as.map Artifact.entry).map Prod.fst = as.map Artifact.name := by
    rw [List.map_map]
    rfl
  obtain ⟨os, hpublished, hnames, hos⟩ := redactFiles_ok hof hnodup []
    (fun name hname => hentries ▸ (hsort.mem_iff).mp hname) (by simp) hr hnone
  subst hpublished
  refine ⟨os, ?_, hos, ?_⟩
  · rw [hnames]
    exact hentries ▸ hsort
  · rw [observeRows_ok hnodup (fun o ho => (hos o ho).1) (fun _ hb => hb) hobserved]
    have hrows : (published P files os).files.map shareableRow = os.map fun o =>
      .obj (o.row P) := by
      unfold published
      rw [List.map_map]
      rfl
    rw [hrows]
    simp [finished, collected, newManifest, setMember, lit_inj, published]

end Redact

end SddGov.Evidence
