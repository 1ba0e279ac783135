import SddGov.Evidence.Collected
import SddGov.Evidence.Portable

/-!
# The manifest of a run

The verification of the two zones after a run. The shareable rows always verify
(`clean_shareableRows`), and of a raw row everything but its suffix: the row
records the suffix of the input, and the artifact has that one just when the
input has one (`clean_rawRows`).
-/

namespace SddGov.Evidence

open SddGov.Effect SddGov.Python
open SddGov.Effect.Check

/-! ## Names and types of artifacts -/

theorem suffixOf_artifact (kind : Kind) {name : PyStr} (h : IsComponent name) :
    suffixOf (artifactPath kind name) = suffixOf name := by
  unfold suffixOf
  rw [nameOf_artifact kind h, nameOf_component h]

/-- A media type that is found is one of those known. -/
theorem artifactMediaType_mem {R : Rules} {suffix : PyStr} {raw : Bytes} {mediaType : PyStr}
    (h : artifactMediaType R suffix raw = .ok mediaType) : mediaType ∈ mediaTypes := by
  unfold artifactMediaType at h
  dsimp only at h
  split at h
  · rw [← Except.ok.inj h]
    simp [mediaTypes]
  · obtain ⟨parsed, -, h⟩ := except_bind_ok.mp h
    rw [← Except.ok.inj h]
    unfold mediaTypes
    split
    · simp
    · split
      · simp
      · split <;> simp

section Names

variable {P : ProducerRules} (hP : P.Lawful)

theorem collectors_plain {collector : PyStr} (h : collector ∈ collectors) :
    backslash ∉ collector := by
  have hall : collectors.all (fun collector => !collector.contains backslash) = true := by decide
  simpa using List.all_eq_true.mp hall collector h

theorem textSuffixes_plain {suffix : PyStr} (h : suffix ∈ textSuffixes) :
    backslash ∉ suffix ∧ suffix ≠ [] := by
  have hall : textSuffixes.all (fun suffix => !suffix.contains backslash && !suffix.isEmpty)
    = true := by decide
  simpa using List.all_eq_true.mp hall suffix h

include hP in
theorem safeLabel_plain (label : PyStr) : backslash ∉ safeLabel P label := by
  intro hmem
  obtain ⟨c, -, hc⟩ := List.mem_map.mp hmem
  by_cases hkept : (P.alnum c || c == cp 0x2D || c == cp 0x5F || c == cp 0x2E) = true
  · rw [if_pos hkept] at hc
    subst hc
    rw [hP.alnum_backslash] at hkept
    exact absurd hkept (by decide)
  · rw [if_neg hkept] at hc
    exact absurd hc (by decide)

/-- The name of an artifact: the label brings its own suffix, which is that of the input, or the
suffix of the input is appended. -/
theorem artifactName_ok {ordinal : Nat} {i : Input} {name : PyStr}
    (h : artifactName P ordinal i = .ok name) :
    ∃ label, (P.lower (suffixOf (safeLabel P label)) = []
        ∧ name = i.collector ++ lit "--" ++ safeLabel P label ++ i.suffix P)
      ∨ (P.lower (suffixOf (safeLabel P label)) = i.suffix P ∧ i.suffix P ≠ []
        ∧ name = i.collector ++ lit "--" ++ safeLabel P label) := by
  unfold artifactName at h
  obtain ⟨_, -, h⟩ := except_bind_ok.mp h
  obtain ⟨_, hsuffix, h⟩ := except_bind_ok.mp h
  rw [require_ok, Bool.or_eq_true, List.isEmpty_iff, beq_iff_eq] at hsuffix
  refine ⟨requestedLabel P ordinal i, ?_⟩
  rw [← Except.ok.inj h]
  by_cases hempty : P.lower (suffixOf (safeLabel P (requestedLabel P ordinal i))) = []
  · left
    exact ⟨hempty, by rw [if_pos (by simpa using hempty)]⟩
  · right
    have hsame := hsuffix.resolve_left hempty
    refine ⟨hsame, hsame ▸ hempty, ?_⟩
    rw [if_neg (by simpa using hempty), List.append_nil]

include hP

/-- The artifact of an input with a suffix has that suffix. -/
theorem Artifact.Of.suffix {a : Artifact} (h : a.Of P) (hsuffix : suffixOf a.input.name ≠ []) :
    P.lower (suffixOf a.name) = a.input.suffix P := by
  obtain ⟨ordinal, hname⟩ := h.named
  have hcomponent := h.filename.component
  obtain ⟨label, ⟨-, heq⟩ | ⟨hlabel, hne, heq⟩⟩ := artifactName_ok hname
  · obtain ⟨-, hempty⟩ | ⟨t, hlower, ht, hdot, -, -⟩ := lower_suffixOf hP a.input.name
    · exact absurd hempty hsuffix
    · have hinput : a.input.suffix P = dot :: t := hlower
      have hsplit : nameOf a.name = (a.input.collector ++ lit "--" ++ safeLabel P label)
        ++ dot :: t := by
        rw [nameOf_component hcomponent, heq, hinput]
      rw [suffixOf_eq hsplit (by simp [show lit "--" ≠ [] by decide]) ht hdot, ← hinput,
        Input.lower_suffix hP]
  · have hslash : slash ∉ safeLabel P label := by
      intro hmem
      apply hcomponent.slash
      rw [heq]
      exact List.mem_append_right _ hmem
    rcases suffixOf_spec (safeLabel P label) with hempty | ⟨pre, t, hlast, hpre, ht, hdot, hsuf⟩
    · rw [hempty, hP.lower_nil] at hlabel
      exact absurd hlabel.symm hne
    · have hsafe : IsComponent (safeLabel P label) := by
        refine ⟨hslash, ?_, ?_⟩
        · intro hnil
          rw [hnil] at hsuf
          exact absurd hsuf (by simp [suffixOf, show nameOf [] = [] by rfl])
        · intro hdots
          rw [hdots] at hsuf
          exact absurd (hsuf.symm.trans (show suffixOf (lit ".") = [] by rfl))
            (List.cons_ne_nil _ _)
      rw [nameOf_component hsafe] at hlast
      have hsplit : nameOf a.name = (a.input.collector ++ lit "--" ++ pre) ++ dot :: t := by
        rw [nameOf_component hcomponent, heq, hlast]
        simp
      rw [suffixOf_eq hsplit (by simp [hpre]) ht hdot, ← hsuf, hlabel]

/-- The row records the suffix of the artifact just when the input has one. -/
theorem Artifact.Of.suffix_iff {a : Artifact} (h : a.Of P)
    (htext : P.lower (suffixOf a.name) ∈ textSuffixes) :
    a.input.suffix P = P.lower (suffixOf a.name) ↔ suffixOf a.input.name ≠ [] := by
  constructor
  · intro heq hempty
    rw [(Input.suffix_eq_nil hP a.input).mpr hempty] at heq
    exact (textSuffixes_plain htext).2 heq.symm
  · intro hne
    exact (h.suffix hP hne).symm

/-- A text artifact has no backslash in its name. -/
theorem Artifact.Of.plain {a : Artifact} (h : a.Of P)
    (htext : P.lower (suffixOf a.name) ∈ textSuffixes) :
    backslash ∉ a.name := by
  obtain ⟨ordinal, hname⟩ := h.named
  have hlabel : ∀ label, backslash ∉ a.input.collector ++ lit "--" ++ safeLabel P label := by
    intro label hmem
    rcases List.mem_append.mp hmem with hmem | hmem
    · rcases List.mem_append.mp hmem with hmem | hmem
      · exact collectors_plain h.collector hmem
      · exact absurd hmem (by decide)
    · exact safeLabel_plain hP label hmem
  obtain ⟨label, ⟨-, heq⟩ | ⟨-, -, heq⟩⟩ := artifactName_ok hname
  · rw [heq, List.mem_append, not_or]
    refine ⟨hlabel label, ?_⟩
    by_cases hempty : suffixOf a.input.name = []
    · rw [(Input.suffix_eq_nil hP a.input).mpr hempty]
      simp
    · rw [← h.suffix hP hempty]
      exact (textSuffixes_plain htext).1
  · rw [heq]
    exact hlabel label

end Names

/-! ## The rows of the manifest -/

/-- A row with a path of its own: its fields and its file. -/
theorem clean_checkRow {R : Rules} {portable : Bool} {kind : Kind} {z : Zone} {manifest m : Members}
    {expected expected' : List PyStr} {index : Nat} {path name : PyStr}
    (hkeys : keysEq m (rowContract kind) = true)
    (hpath : manifestArtifactPath (fun _ => false) kind z (get (lit "path") m) = .ok (path, name))
    (hfresh : path ∉ expected) :
    Clean (checkRow R (fun _ => false) portable kind z manifest expected index (.obj m)) expected' ↔
      (Clean (checkRowFields R kind (lit "manifest " ++ kind.text ++ lit "[" ++ natText index
        ++ lit "]") m) ()
        ∧ Clean (checkArtifact R portable kind z manifest m path name) ())
          ∧ expected' = path :: expected := by
  unfold checkRow
  dsimp only
  rw [if_pos hkeys, hpath]
  dsimp only
  rw [if_neg (by simpa using hfresh)]
  simp only [clean_bind, clean_pure]
  constructor
  · rintro ⟨_, hfields, _, hfile, rfl⟩
    exact ⟨⟨hfields, hfile⟩, rfl⟩
  · rintro ⟨⟨hfields, hfile⟩, rfl⟩
    exact ⟨(), hfields, (), hfile, rfl⟩

/-- An entry that is a file is no link. -/
theorem crossesLink_file {entries : Entries} {name : PyStr} {f : FileEntry}
    (h : entries.find name = some (.file f)) :
    crossesLink (.opened entries) name = false := by
  show (entries.find name == some .symlink) = false
  rw [h]
  rfl

theorem artifactPath_injective (kind : Kind) : Function.Injective (artifactPath kind) := by
  intro a b h
  exact List.append_cancel_left h

/-- Rows and a zone of single-linked files with the same names: the rows decide. -/
theorem clean_checkRows {R : Rules} {portable : Bool} {kind : Kind} {τ : Type} {xs : List τ}
    {entry : τ → PyStr × Entry}
    (name : τ → PyStr) {file : τ → FileEntry} {row : τ → Json} (good : τ → Prop)
    {manifest : Members}
    (hrows : get kind.text manifest = .arr (xs.map row))
    (hentry : ∀ x, entry x = (name x, .file (file x)))
    (hname : ∀ x ∈ xs, IsFilename (name x)) (hlinks : ∀ x ∈ xs, (file x).links = 1)
    (hnodup : (xs.map name).Nodup)
    (hstep : ∀ x ∈ xs, ∀ seen index seen', artifactPath kind (name x) ∉ seen →
      (Clean (checkRow R (fun _ => false) portable kind (.opened (xs.map entry)) manifest seen index
        (row x)) seen' ↔
        good x ∧ seen' = artifactPath kind (name x) :: seen)) :
    Clean (checkRows R (fun _ => false) portable kind (.opened (xs.map entry)) manifest) () ↔
    ∀ x ∈ xs, good x := by
  have hpaths : (xs.map fun x => artifactPath kind (name x)).Nodup := by
    have hpath := hnodup.map (artifactPath_injective kind)
    rw [List.map_map] at hpath
    exact hpath
  have hloop := fun seen' => clean_loop_fresh [] seen' 0 hstep hpaths (fun _ _ => List.not_mem_nil)
  unfold checkRows
  rw [hrows]
  dsimp only
  simp only [checkZone, openZone, clean_bind, clean_pure, hloop]
  constructor
  · rintro ⟨_, -, _, ⟨hgood, -⟩, -⟩
    exact hgood
  · intro hgood
    refine ⟨(), trivial, _, ⟨hgood, rfl⟩, clean_checkExtras.mpr ?_⟩
    intro e he
    obtain ⟨x, hx, rfl⟩ := List.mem_map.mp he
    rw [hentry]
    constructor
    · unfold entryError
      dsimp only
      rw [if_neg
        (by simp [(hname x hx).component.nonempty, nameOf_component (hname x hx).component]),
        if_neg (by simp [hlinks x hx])]
    · rw [List.append_nil, List.mem_reverse]
      exact List.mem_map_of_mem (f := fun x => artifactPath kind (name x)) hx

section Rows

variable {P : ProducerRules} (hP : P.Lawful) {as : List Artifact} {os : List Output} {depId : PyStr}
variable {portable : Bool} {files : PyStr → FileStamp} {a : Artifact} {o : Output} {label : PyStr}

include hP

theorem isDigest_sha256 (content : Bytes) :
    checkRowFields.isDigest (.str (P.crypto.sha256 content)) = true := hP.hex content

/-- The fields of a raw row, but for the suffix, are as `collect` writes them. -/
theorem clean_rawFields (ha : a.Of P) :
    Clean (checkRowFields P.toRules .raw label (a.row P)) () ↔
      a.input.suffix P = P.lower (suffixOf (artifactPath .raw a.name)) := by
  have hcollector : memberOfSet (get (lit "collector") (a.row P)) collectors = .ok true :=
    congrArg Except.ok (List.contains_iff_mem.mpr ha.collector)
  have hmedia : memberOfSet (get (lit "media_type") (a.row P)) mediaTypes = .ok true :=
    congrArg Except.ok (List.contains_iff_mem.mpr (artifactMediaType_mem ha.mediaType))
  have hsuffix : get (lit "source_suffix") (a.row P) = .str (a.input.suffix P) := rfl
  have hpath : get (lit "path") (a.row P) = .str (artifactPath .raw a.name) := rfl
  have hat : (text? (get (lit "collected_at") (a.row P))).isNone = false := by
    have hsome := text?_stamp a.input.collectedAt
    show (text? (.str (stamp a.input.collectedAt))).isNone = false
    simpa [Option.isNone_iff_eq_none, Option.isSome_iff_ne_none] using hsome
  have hflag : isFlag (Kind.raw == Kind.shareable) (get (lit "shareable") (a.row P)) = true := rfl
  have hsize : isIntAtLeast 0 (get (lit "size") (a.row P)) = true := by
    show decide ((0 : Int) ≤ (a.input.content.length : Int)) = true
    simp
  have hdigest : checkRowFields.isDigest (get (lit "sha256") (a.row P)) = true :=
    isDigest_sha256 hP _
  unfold checkRowFields checkRawFields
  rw [if_pos rfl, hcollector, hmedia, hsuffix, hpath, hP.str_text, hat, hflag, hsize, hdigest]
  simp [clean_bind, clean_lift]

theorem clean_shareableFields : Clean (checkRowFields P.toRules .shareable label (o.row P)) () := by
  have hflag : isFlag (Kind.shareable == Kind.shareable) (get (lit "shareable") (o.row P))
    = true := rfl
  have hsize : isIntAtLeast 0 (get (lit "size") (o.row P)) = true := by
    show decide ((0 : Int) ≤ (o.content.length : Int)) = true
    simp
  have hdigest : checkRowFields.isDigest (get (lit "sha256") (o.row P)) = true :=
    isDigest_sha256 hP _
  unfold checkRowFields
  rw [if_neg (by decide), hflag, hsize, hdigest]
  simp [clean_bind]

omit hP in
/-- The file of a raw row is the one that `collect` has written. -/
theorem clean_rawContent (ha : a.Of P) (manifest : Members) (relative : PyStr) :
    Clean (checkContent P.toRules .raw manifest (a.row P) relative
      (a.input.fileStamp.file a.input.content)) () := by
  have hsize : (intValue? (get (lit "size") (a.row P))).any (· != (a.input.content.length : Int))
    = false := by
    show ((a.input.content.length : Int) != (a.input.content.length : Int)) = false
    simp
  have hdigest : (checkContent.textOf (get (lit "sha256") (a.row P))).any
      (· != P.crypto.sha256 a.input.content) = false := by
    show (P.crypto.sha256 a.input.content != P.crypto.sha256 a.input.content) = false
    simp
  have hsuffix : get (lit "source_suffix") (a.row P) = .str (a.input.suffix P) := rfl
  have hmedia : pyEq (get (lit "media_type") (a.row P)) (.str a.mediaType) = true :=
    (pyEq_str_right _ _).mpr rfl
  unfold checkContent checkMediaType
  rw [if_pos rfl, hsuffix]
  simp only [FileStamp.file]
  rw [hsize, hdigest, ha.mediaType]
  simp [clean_bind, clean_lift, hmedia]

section Zones

variable (hof : ∀ a ∈ as, a.Of P) (hnodup : (as.map Artifact.name).Nodup)
variable (htext : ∀ a ∈ as, P.lower (suffixOf a.name) ∈ textSuffixes)

include hof hnodup htext

/-- The path of a raw artifact names it in its zone. -/
theorem rawPath_ok (ha : a ∈ as) :
    manifestArtifactPath (fun _ => false) .raw (.opened (as.map Artifact.entry))
    (get (lit "path") (a.row P))
      = .ok (artifactPath .raw a.name, a.name) :=
  manifestArtifactPath_artifact .raw (hof a ha).filename.component (hof a ha).filename.notParent
    ((hof a ha).plain hP (htext a ha))
    (crossesLink_file (Entries.find_mem (nodup_entries hnodup)
      (List.mem_map_of_mem (f := Artifact.entry) ha)))

/-- The raw rows verify just when every input has a suffix. -/
theorem clean_rawRows (shareable : List Json) :
    Clean (checkRows P.toRules (fun _ => false) portable .raw (.opened (as.map Artifact.entry))
      (newManifest depId (as.map fun a => .obj (a.row P)) shareable)) () ↔
      ∀ a ∈ as, suffixOf a.input.name ≠ [] := by
  refine clean_checkRows Artifact.name _ rfl (fun _ => rfl) (fun a ha => (hof a ha).filename)
    (fun _ _ => rfl) hnodup ?_
  intro a ha seen index seen' hfresh
  rw [clean_checkRow rfl (rawPath_ok hP hof hnodup htext ha) hfresh, clean_rawFields hP (hof a ha),
    suffixOf_artifact .raw (hof a ha).filename.component, (hof a ha).suffix_iff hP (htext a ha)]
  have hfile : Clean (checkArtifact P.toRules portable .raw (.opened (as.map Artifact.entry))
      (newManifest depId (as.map fun a => .obj (a.row P)) shareable) (a.row P)
        (artifactPath .raw a.name) a.name) () := by
    unfold checkArtifact
    rw [show readInZone .raw (.opened (as.map Artifact.entry)) a.name _
      = _ from read_artifact hof hnodup ha _]
    exact clean_rawContent (hof a ha) _ _
  rw [and_iff_left hfile]

end Zones

section Zones

variable (hos : ∀ o ∈ os, o.Of P) (hnames : (os.map Output.name).Nodup)

include hos hnames

omit hP in
theorem read_output (ho : o ∈ os) (label : PyStr) :
    readInZone .shareable (.opened (os.map (Output.entry files))) o.name label
    = .ok ((files o.name).file o.content) := by
  have hentries : ((os.map (Output.entry files)).map Prod.fst).Nodup := by
    rw [List.map_map]
    exact hnames
  exact readRegularBytesAt_file (hos o ho).artifact.filename
    (Entries.find_mem hentries (List.mem_map_of_mem (f := Output.entry files) ho)) rfl
      (hos o ho).bound

theorem outputPath_ok (ho : o ∈ os) :
    manifestArtifactPath (fun _ => false) .shareable (.opened (os.map (Output.entry files)))
    (get (lit "path") (o.row P))
      = .ok (artifactPath .shareable o.name, o.name) := by
  have hentries : ((os.map (Output.entry files)).map Prod.fst).Nodup := by
    rw [List.map_map]
    exact hnames
  have hfilename := (hos o ho).artifact.filename
  exact manifestArtifactPath_artifact .shareable hfilename.component hfilename.notParent
    ((hos o ho).artifact.plain hP (hos o ho).suffix)
    (crossesLink_file
      (Entries.find_mem hentries (List.mem_map_of_mem (f := Output.entry files) ho)))

/-- The shareable rows verify. -/
theorem clean_shareableRows (raw : List Json) :
    Clean (checkRows P.toRules (fun _ => false) portable .shareable
      (.opened (os.map (Output.entry files)))
      (newManifest depId raw (os.map fun o => .obj (o.row P)))) () := by
  have hentry : ∀ o, Output.entry files o = (o.name, .file ((files o.name).file o.content)) :=
    fun _ => rfl
  refine (clean_checkRows Output.name (fun _ => True) rfl hentry
    (fun o ho => (hos o ho).artifact.filename)
    (fun _ _ => rfl) hnames ?_).mpr (fun _ _ => trivial)
  intro o ho seen index seen' hfresh
  have hfile : Clean (checkArtifact P.toRules portable .shareable
    (.opened (os.map (Output.entry files)))
      (newManifest depId raw (os.map fun o => .obj (o.row P))) (o.row P)
        (artifactPath .shareable o.name) o.name) () := by
    have hsize : (intValue? (get (lit "size") (o.row P))).any (· != (o.content.length : Int))
      = false := by
      show ((o.content.length : Int) != (o.content.length : Int)) = false
      simp
    have hdigest : (checkContent.textOf (get (lit "sha256") (o.row P))).any
      (· != P.crypto.sha256 o.content) = false := by
      show (P.crypto.sha256 o.content != P.crypto.sha256 o.content) = false
      simp
    unfold checkArtifact
    rw [read_output hos hnames ho]
    unfold checkContent
    simp only [FileStamp.file]
    rw [if_neg (by decide), hsize, hdigest]
    simp [clean_bind]
  rw [clean_checkRow rfl (outputPath_ok hP hos hnames ho) hfresh]
  simp only [clean_shareableFields hP, hfile, and_self, true_and]

end Zones

end Rows

end SddGov.Evidence
