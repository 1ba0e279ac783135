import SddGov.Evidence.Rows
import SddGov.Python.JsonText

/-!
# The verification accepts what the operations write

Packages of `make_dep`, `collect`s and a `redact` that blocks nothing. The
associations of the report always verify. The manifest verifies just when every
input had a suffix (`produced_accepted_iff`): an input without one can be
collected under a label such as `.log`, which has no suffix for `collect` but
gives the artifact one.
-/

namespace SddGov.Evidence

open SddGov.Effect SddGov.Python
open SddGov.Effect.Check

/-! ## Counts -/

/-- Members with different names and integers. -/
structure IsCounts (m : Members) : Prop where
  nodup : (keys m).Nodup
  ints : ∀ c ∈ m, ∃ n, c.2 = .int n

/-- Counts are equal to themselves, as Python compares them. -/
theorem IsCounts.pyEq_refl {m : Members} (h : IsCounts m) : pyEq (.obj m) (.obj m) = true := by
  have hmembers : ∀ part : Members, (∀ c ∈ part, c ∈ m) → pyEqMembers part m = true := by
    intro part
    induction part with
    | nil =>
      intro _
      simp [pyEqMembers]
    | cons c part ih =>
      intro hpart
      have hc := hpart c (List.mem_cons_self ..)
      obtain ⟨n, hn⟩ := h.ints c hc
      have hsame : pyEq c.2 c.2 = true := by
        rw [hn]
        simp [pyEq, scalarEq, Json.num?]
      have hrest := ih fun d hd => hpart d (List.mem_cons_of_mem _ hd)
      obtain ⟨key, v⟩ := c
      rw [pyEqMembers, lookup_of_mem h.nodup hc, hrest, Bool.and_true]
      exact hsame
  unfold pyEq
  rw [hmembers m fun _ h => h]
  simp

theorem mem_keys_setMember {key other : PyStr} {v : Json} {m : Members}
    (h : other ∈ keys (setMember key v m)) :
    other = key ∨ other ∈ keys m := by
  by_cases heq : other = key
  · exact .inl heq
  · right
    rw [← lookup_isSome_iff, lookup_setMember_ne v m heq, lookup_isSome_iff] at h
    exact h

/-- Counting one more entry leaves counts. -/
theorem IsCounts.setMember {m : Members} (h : IsCounts m) (key : PyStr) (n : Int) :
    IsCounts (Python.setMember key (.int n) m) := by
  induction m with
  | nil => exact ⟨by simp [Python.setMember, keys], by simp [Python.setMember]⟩
  | cons c m ih =>
    obtain ⟨k, v⟩ := c
    have hnodup : k ∉ keys m ∧ (keys m).Nodup := List.nodup_cons.mp h.nodup
    have hm : IsCounts m := ⟨hnodup.2, fun c hc => h.ints c (List.mem_cons_of_mem _ hc)⟩
    rw [Python.setMember]
    split
    · next heq =>
      refine ⟨h.nodup, ?_⟩
      intro c hc
      rcases List.mem_cons.mp hc with rfl | hc
      · exact ⟨n, rfl⟩
      · exact hm.ints c hc
    · next hne =>
      have hrest := ih hm
      refine ⟨List.nodup_cons.mpr ⟨?_, hrest.nodup⟩, ?_⟩
      · intro hmem
        rcases mem_keys_setMember hmem with heq | hmem
        · exact hne heq
        · exact hnodup.1 hmem
      · intro c hc
        rcases List.mem_cons.mp hc with rfl | hc
        · exact h.ints _ (List.mem_cons_self ..)
        · exact hrest.ints c hc

theorem IsCounts.addCounts {totals : Members} (h : IsCounts totals) (counts : Members) :
    IsCounts (Evidence.addCounts totals counts) := by
  induction counts generalizing totals with
  | nil => exact h
  | cons c counts ih => exact ih (h.setMember c.1 _)

/-- Counts that are read are counts. -/
theorem isCounts_of_counts {m : Members} (hnodup : (keys m).Nodup)
    (h : (counts? (.obj m)).isSome = true) :
    IsCounts m ∧ counts? (.obj m) = some m := by
  have hall : (m.all fun c => !c.1.isEmpty && isIntAtLeast 1 c.2) = true := by
    by_contra hnot
    rw [show counts? (.obj m) = none from if_neg hnot] at h
    simp at h
  refine ⟨⟨hnodup, ?_⟩, if_pos hall⟩
  intro c hc
  have hint := List.all_eq_true.mp hall c hc
  obtain ⟨k, v⟩ := c
  cases v <;> simp [isIntAtLeast] at hint ⊢

/-! ## The associations -/

/-- Rows with different names are found, also where a later one would replace an earlier one. -/
theorem findRow_reverse {rows : List (PyStr × Members)} (h : (rows.map Prod.fst).Nodup)
    {row : PyStr × Members}
    (hrow : row ∈ rows) : findRow row.1 rows.reverse = some row.2 := by
  unfold findRow
  rw [find?_fst (by rw [List.map_reverse]; exact List.nodup_reverse.mpr h)
    (List.mem_reverse.mpr hrow)]
  rfl

/-- The rows of a manifest by their names. -/
theorem rowsByName_map {τ : Type} {xs : List τ} {row : τ → Members} {name : τ → PyStr} (kind : Kind)
    (hpath : ∀ x ∈ xs, get (lit "path") (row x) = .str (artifactPath kind (name x)))
    (hname : ∀ x ∈ xs, IsComponent (name x)) :
    rowsByName (xs.map fun x => .obj (row x)) = (xs.map fun x => (name x, row x)).reverse := by
  unfold rowsByName
  congr 1
  induction xs with
  | nil => rfl
  | cons x xs ih =>
    have hrest := ih (fun y hy => hpath y (List.mem_cons_of_mem _ hy)) fun y hy =>
      hname y (List.mem_cons_of_mem _ hy)
    rw [List.map_cons, List.filterMap_cons, hrest]
    dsimp only
    rw [hpath x (List.mem_cons_self ..)]
    dsimp only
    rw [nameOf_artifact kind (hname x (List.mem_cons_self ..))]
    rfl

theorem sameSet_perm {a b : List PyStr} (h : a.Perm b) : sameSet a b = true := by
  unfold sameSet
  simp only [Bool.and_eq_true, List.all_eq_true, List.contains_iff_mem]
  exact ⟨fun x hx => h.mem_iff.mp hx, fun x hx => h.mem_iff.mpr hx⟩

theorem pyEq_int (n : Int) : pyEq (.int n) (.int n) = true := by simp [pyEq, scalarEq, Json.num?]

section Associations

variable {P : ProducerRules} (hP : P.Lawful) (documents : Entries) (files : PyStr → FileStamp)
variable {as : List Artifact} {os : List Output} {o : Output}
variable (hof : ∀ a ∈ as, a.Of P) (hnodup : (as.map Artifact.name).Nodup)
variable (htext : ∀ a ∈ as, P.lower (suffixOf a.name) ∈ textSuffixes)
variable (hos : ∀ o ∈ os, o.artifact ∈ as ∧ o.Of P) (hnames : (os.map Output.name).Nodup)

include hP hof hnodup htext hos hnames

omit htext in
/-- The text of an output is the redaction of its source, and has nothing left to redact. -/
theorem clean_output (ho : o ∈ os) (label : PyStr) :
    Clean (checkOutput P.toRules ⟨documents, .opened (as.map Artifact.entry),
      .opened (os.map (Output.entry files)), fun _ => false⟩
      label o.name o.name (.obj o.counts)) () := by
  have hfacts := (hos o ho).2
  obtain ⟨more, hidem⟩ := hP.redact_idem _ _ _ hfacts.redacted
  obtain ⟨hkeys, hcounts⟩ := hP.redact_counts _ _ _ hfacts.redacted
  have hraw : readInZone .raw (.opened (as.map Artifact.entry)) o.name (label ++ lit " raw source")
      = .ok (o.artifact.input.fileStamp.file o.artifact.input.content) :=
        read_artifact hof hnodup (hos o ho).1 _
  have hsource :
    Clean (checkSource P.toRules (.opened (as.map Artifact.entry)) label o.name o.redacted
      (.obj o.counts)) () := by
    unfold checkSource
    rw [hraw]
    simp only [FileStamp.file]
    rw [hfacts.text]
    dsimp only
    rw [hfacts.redacted]
    simp [clean_bind, clean_lift, (isCounts_of_counts hkeys hcounts).1.pyEq_refl]
  unfold checkOutput
  rw [if_pos (List.contains_iff_mem.mpr hfacts.suffix),
    read_output (fun o ho => (hos o ho).2) hnames ho]
  simp only [FileStamp.file]
  rw [utf8Decode_utf8Encode hfacts.content]
  dsimp only
  rw [hidem]
  simp [clean_bind, clean_lift, hsource]

/-- A file of the report verifies, and is noted. -/
theorem clean_fileRow (ho : o ∈ os) {s : Associations} (hsource : o.name ∉ s.sources)
    (houtput : o.name ∉ s.outputs)
    (index : Nat) :
    Clean (checkFileRow P.toRules ⟨documents, .opened (as.map Artifact.entry),
      .opened (os.map (Output.entry files)), fun _ => false⟩
        (as.map fun a => (a.name, a.row P)).reverse (os.map fun o =>
          (o.name, o.row P)).reverse s index
        (.obj (o.fileRow P)))
      ⟨o.name :: s.sources, o.name :: s.outputs, addCounts s.totals o.counts⟩ := by
  have hfacts := (hos o ho).2
  have hcomponent := hfacts.artifact.filename.component
  obtain ⟨hkeys, hcounts⟩ := hP.redact_counts _ _ _ hfacts.redacted
  have hname : bareName? (.str o.name) = some o.name := by
    have hbare : o.name ≠ [] ∧ nameOf o.name = o.name :=
      ⟨hcomponent.nonempty, nameOf_component hcomponent⟩
    exact if_pos hbare
  have hraw : findRow o.name (as.map fun a => (a.name, a.row P)).reverse
    = some (o.artifact.row P) := by
    have hrows : ((as.map fun a => (a.name, a.row P)).map Prod.fst).Nodup := by
      rw [List.map_map]
      exact hnodup
    exact findRow_reverse hrows (List.mem_map_of_mem (f := fun a => (a.name, a.row P)) (hos o ho).1)
  have hshareable : findRow o.name (os.map fun o => (o.name, o.row P)).reverse
    = some (o.row P) := by
    have hrows : ((os.map fun o => (o.name, o.row P)).map Prod.fst).Nodup := by
      rw [List.map_map]
      exact hnames
    exact findRow_reverse hrows (List.mem_map_of_mem (f := fun o => (o.name, o.row P)) ho)
  have hfields : keysEq (o.fileRow P) fileFields = true := rfl
  have hsourceField : get (lit "source") (o.fileRow P) = .str o.name := rfl
  have houtputField : get (lit "output") (o.fileRow P) = .str o.name := rfl
  have hredactions : get (lit "redactions") (o.fileRow P) = .obj o.counts := rfl
  have hsuffixes : ∀ label, Clean (checkSuffixes P.toRules label o.name o.name) () := by
    intro label
    unfold checkSuffixes
    rw [List.contains_iff_mem.mpr hfacts.suffix]
    simp [clean_bind]
  have hreport : ∀ label, Clean (checkReportKeys label (o.fileRow P) (o.artifact.row P) (o.row P))
    () := by
    intro label
    have hdigest : pyEq (get (lit "source_sha256") (o.fileRow P))
      (get (lit "sha256") (o.artifact.row P)) = true :=
      (pyEq_str_right _ _).mpr rfl
    have hsize : pyEq (get (lit "source_size") (o.fileRow P))
      (get (lit "size") (o.artifact.row P)) = true :=
      pyEq_int _
    have hdigest' : pyEq (get (lit "output_sha256") (o.fileRow P))
      (get (lit "sha256") (o.row P)) = true :=
      (pyEq_str_right _ _).mpr rfl
    have hsize' : pyEq (get (lit "output_size") (o.fileRow P)) (get (lit "size") (o.row P))
      = true := pyEq_int _
    unfold checkReportKeys each
    simp only [loop, clean_bind, clean_reportIf, hdigest, hsize, hdigest', hsize', clean_pure]
    simp
  have hfiles : ∀ label, Clean (checkAssociated P.toRules
      ⟨documents, .opened (as.map Artifact.entry), .opened (os.map (Output.entry files)), fun _ =>
        false⟩ label (o.artifact.row P)
      (o.row P) (.obj o.counts)) () := by
    intro label
    have hpath : manifestArtifactPath (fun _ => false) .shareable
      (.opened (os.map (Output.entry files))) (get (lit "path") (o.row P))
        = .ok (artifactPath .shareable o.name, o.name) :=
          outputPath_ok hP (fun o ho => (hos o ho).2) hnames ho
    have hassociated : associatedNames
        ⟨documents, .opened (as.map Artifact.entry), .opened (os.map (Output.entry files)),
          fun _ => false⟩
        (o.artifact.row P) (o.row P) = .ok (o.artifact.name, o.name) := by
      unfold associatedNames
      dsimp only
      rw [rawPath_ok hP hof hnodup htext (hos o ho).1, hpath]
      rfl
    unfold checkAssociated
    rw [hassociated]
    exact clean_output hP documents files hof hnodup hos hnames ho label
  unfold checkFileRow
  dsimp only
  rw [if_pos hfields, hsourceField, houtputField, hname]
  dsimp only
  rw [if_neg (by simp [hsource, houtput]), hraw, hshareable]
  simp only [hfacts.notHar, hredactions, (isCounts_of_counts hkeys hcounts).2, clean_bind,
    clean_reportIf, clean_pure]
  exact ⟨(), hsuffixes _, (), trivial, (), hreport _, (), rfl, (), hfiles _, rfl⟩

/-- All files of the report verify, and every output is noted. -/
theorem clean_fileRows (part : List Output) (hpart : ∀ o ∈ part, o ∈ os)
    (hfresh : (part.map Output.name).Nodup)
    (s : Associations) (index : Nat) (hsources : ∀ o ∈ part, o.name ∉ s.sources)
    (houtputs : ∀ o ∈ part, o.name ∉ s.outputs) :
    Clean (loop (checkFileRow P.toRules
          ⟨documents, .opened (as.map Artifact.entry), .opened (os.map (Output.entry files)),
            fun _ => false⟩
          (as.map fun a => (a.name, a.row P)).reverse (os.map fun o => (o.name, o.row P)).reverse) s
          index
        (part.map fun o => .obj (o.fileRow P)))
      ⟨(part.map Output.name).reverse ++ s.sources, (part.map Output.name).reverse ++ s.outputs,
        part.foldl (fun totals o => addCounts totals o.counts) s.totals⟩ := by
  induction part generalizing s index with
  | nil => exact clean_pure.mpr rfl
  | cons o part ih =>
    rw [List.map_cons, List.nodup_cons] at hfresh
    have hnew : ∀ names : List PyStr, (∀ o' ∈ o :: part, o'.name ∉ names) →
      ∀ o' ∈ part, o'.name ∉ o.name :: names := by
      intro names hnames' o' ho' hmem
      rcases List.mem_cons.mp hmem with heq | hmem
      · exact hfresh.1 (heq ▸ List.mem_map_of_mem ho')
      · exact hnames' o' (List.mem_cons_of_mem _ ho') hmem
    have hfirst := clean_fileRow hP documents files hof hnodup htext hos hnames
      (hpart o (List.mem_cons_self ..)) (hsources o (List.mem_cons_self ..))
        (houtputs o (List.mem_cons_self ..)) index
    have hrest := ih (fun o' ho' => hpart o' (List.mem_cons_of_mem _ ho')) hfresh.2
      ⟨o.name :: s.sources, o.name :: s.outputs, addCounts s.totals o.counts⟩ (index + 1)
        (hnew _ hsources)
      (hnew _ houtputs)
    refine clean_bind.mpr ⟨_, hfirst, ?_⟩
    simpa using hrest

/-- The report on the outputs verifies. -/
theorem clean_associations (hperm : (os.map Output.name).Perm (as.map Artifact.name))
    (depId : PyStr)
    (generatedAt : Instant) :
    Clean (verifyRedactionAssociations P.toRules
        ⟨documents, .opened (as.map Artifact.entry), .opened (os.map (Output.entry files)),
          fun _ => false⟩
        (newManifest depId (as.map fun a => .obj (a.row P)) (os.map fun o => .obj (o.row P)))
        ((published P files os).report depId generatedAt)) () := by
  have hraw : rowsByName (as.map fun a => .obj (a.row P))
    = (as.map fun a => (a.name, a.row P)).reverse :=
    rowsByName_map .raw (fun _ _ => rfl) fun a ha => (hof a ha).filename.component
  have hshareable : rowsByName (os.map fun o => .obj (o.row P))
    = (os.map fun o => (o.name, o.row P)).reverse :=
    rowsByName_map .shareable (fun _ _ => rfl) fun o ho => (hos o ho).2.artifact.filename.component
  have hloop := clean_fileRows hP documents files hof hnodup htext hos hnames os
    (fun _ h => h) hnames {} 0 (fun _ _ => List.not_mem_nil) (fun _ _ => List.not_mem_nil)
  have htotals : IsCounts (published P files os).totals := by
    have hfold : ∀ (part : List Output) (totals : Members), IsCounts totals →
        IsCounts (part.foldl (fun totals o => addCounts totals o.counts) totals) := by
      intro part
      induction part with
      | nil => exact fun _ h => h
      | cons o part ih => exact fun totals h => ih _ (h.addCounts o.counts)
    exact hfold os [] ⟨List.nodup_nil, by simp⟩
  have hsources : sameSet ((os.map Output.name).reverse ++ [] ++ [])
      ((as.map fun a => (a.name, a.row P)).reverse.map Prod.fst) = true := by
    apply sameSet_perm
    rw [List.append_nil, List.append_nil, List.map_reverse, List.map_map]
    exact (List.reverse_perm _).trans (hperm.trans (List.reverse_perm _).symm)
  have houtputs : sameSet ((os.map Output.name).reverse ++ [])
      ((os.map fun o => (o.name, o.row P)).reverse.map Prod.fst) = true := by
    apply sameSet_perm
    rw [List.append_nil, List.map_reverse, List.map_map]
    exact List.Perm.refl _
  have hfields : keysEq ((published P files os).report depId generatedAt) reportFields = true := rfl
  have hversion :
    pyEq (get (lit "schema_version") ((published P files os).report depId generatedAt))
      (.str (lit "1.0")) = true := (pyEq_str_right _ _).mpr rfl
  have hdep : pyEq (get (lit "dep_id") ((published P files os).report depId generatedAt))
      (get (lit "dep_id") (newManifest depId (as.map fun a => .obj (a.row P))
        (os.map fun o => .obj (o.row P))))
      = true := (pyEq_str_right _ _).mpr rfl
  have hfiles : get (lit "files") ((published P files os).report depId generatedAt)
      = .arr (os.map fun o => .obj (o.fileRow P)) := rfl
  have hblocked : get (lit "blocked") ((published P files os).report depId generatedAt)
    = .arr [] := rfl
  have hrawRows : iterate (getOr (lit "raw") (.arr [])
      (newManifest depId (as.map fun a => .obj (a.row P)) (os.map fun o => .obj (o.row P))))
      = .ok (as.map fun a => .obj (a.row P)) := rfl
  have hshareableRows : iterate (getOr (lit "shareable") (.arr [])
      (newManifest depId (as.map fun a => .obj (a.row P)) (os.map fun o => .obj (o.row P))))
      = .ok (os.map fun o => .obj (o.row P)) := rfl
  have htotalsField : get (lit "totals") ((published P files os).report depId generatedAt)
      = .obj (published P files os).totals := rfl
  unfold verifyRedactionAssociations
  rw [hfields, hversion, hdep, hfiles, hblocked]
  dsimp only
  refine clean_bind.mpr ⟨(), clean_reportIf.mpr rfl, ?_⟩
  unfold checkAssociations
  rw [hrawRows, hshareableRows]
  refine clean_bind.mpr ⟨_, clean_lift.mpr rfl, clean_bind.mpr ⟨_, clean_lift.mpr rfl, ?_⟩⟩
  rw [hraw, hshareable]
  refine clean_bind.mpr ⟨_, hloop, clean_bind.mpr ⟨[], clean_pure.mpr rfl, ?_⟩⟩
  refine clean_bind.mpr ⟨(), clean_reportIf.mpr ?_, clean_bind.mpr ⟨(), clean_reportIf.mpr ?_, ?_⟩⟩
  · rw [hsources]
    rfl
  · rw [houtputs]
    rfl
  · rw [htotalsField, clean_reportIf]
    show (!pyEq (.obj (published P files os).totals) (.obj (published P files os).totals)) = false
    rw [htotals.pyEq_refl]
    rfl

end Associations

/-! ## Runs -/

section Runs

variable {P : ProducerRules} (hP : P.Lawful) {documents : Entries} {depId : PyStr}
    {generatedAt : Instant}
variable {files : PyStr → FileStamp}

/-- What both passes say of the package. -/
def Accepted (R : Rules) (q : Package) (report : Members) (portable : Bool) : Prop :=
  Clean (verifyManifestArtifacts R q.dep q.manifest portable) ()
    ∧ Clean (verifyRedactionAssociations R q.dep q.manifest report) ()

include hP

/-- The verifier accepts what the producer has finished exactly under a condition on the collected
names: the report and the files agree by construction. -/
theorem finished_accepted_iff {as : List Artifact} {os : List Output} (hof : ∀ a ∈ as, a.Of P)
    (hnodup : (as.map Artifact.name).Nodup) (hos : ∀ o ∈ os, o.artifact ∈ as ∧ o.Of P)
    (hperm : (os.map Output.name).Perm (as.map Artifact.name)) (portable : Bool) :
    Accepted P.toRules (finished P documents depId generatedAt files as os)
        ((published P files os).report depId generatedAt) portable
      ↔ ∀ a ∈ as, suffixOf a.input.name ≠ [] := by
  have hnames : (os.map Output.name).Nodup := hperm.nodup_iff.mpr hnodup
  have htext : ∀ a ∈ as, P.lower (suffixOf a.name) ∈ textSuffixes := by
    intro a ha
    obtain ⟨o, ho, hname⟩ := List.mem_map.mp
      ((hperm.mem_iff).mpr (List.mem_map_of_mem (f := Artifact.name) ha))
    obtain rfl := artifact_eq_of_name hnodup (hos o ho).1 ha hname
    exact (hos o ho).2.suffix
  have hraw : Clean (checkRows P.toRules (fun _ => false) portable .raw
    (finished P documents depId generatedAt files as os).dep.raw
      (finished P documents depId generatedAt files as os).manifest) () ↔
        ∀ a ∈ as, suffixOf a.input.name ≠ [] :=
    clean_rawRows hP hof hnodup htext _
  have hshareable : Clean (checkRows P.toRules (fun _ => false) portable .shareable
      (finished P documents depId generatedAt files as os).dep.shareable
      (finished P documents depId generatedAt files as os).manifest) () :=
    clean_shareableRows hP (fun o ho => (hos o ho).2) hnames _
  have hreport :
    Clean (verifyRedactionAssociations P.toRules
    (finished P documents depId generatedAt files as os).dep
      (finished P documents depId generatedAt files as os).manifest
      ((published P files os).report depId generatedAt)) () :=
    clean_associations hP documents files hof hnodup htext hos hnames hperm depId generatedAt
  unfold Accepted
  rw [and_iff_left hreport, ← hraw]
  unfold verifyManifestArtifacts
  rw [clean_bind]
  constructor
  · rintro ⟨_, h, -⟩
    exact h
  · intro h
    exact ⟨(), h, hshareable⟩

/-- What `make_dep`, `collect`s and a `redact` that blocks nothing leave is accepted just when every
input that was collected has a suffix. -/
theorem produced_accepted_iff {inputs : List Input} {p₀ p₁ q : Package} {report : Members}
    (hmake : makeDep documents depId = .ok p₀) (hcollect : collectAll P p₀ inputs = .ok p₁)
    (hredact : redact P p₁ generatedAt files = .ok q) (hreport : q.redaction = some report)
    (hblocked : get (lit "blocked") report = .arr []) (portable : Bool) :
    Accepted P.toRules q report portable ↔ ∀ i ∈ inputs, suffixOf i.name ≠ [] := by
  unfold makeDep at hmake
  obtain ⟨_, -, hp₀⟩ := except_bind_ok.mp hmake
  have hempty : p₀ = collected P documents depId [] := (Except.ok.inj hp₀).symm
  subst hempty
  obtain ⟨as, rfl, hinputs, hnodup, hof⟩ := collectAll_ok (by simp) (by simp) hcollect
  obtain ⟨os, hperm, hos, rfl⟩ := redact_ok hof hnodup hredact hreport hblocked
  obtain rfl := Option.some.inj hreport
  rw [finished_accepted_iff hP hof hnodup hos hperm portable]
  rw [List.map_nil, List.nil_append] at hinputs
  rw [← hinputs]
  simp

end Runs

/-! ## Runs on one text -/

/-- A text with nothing to redact, and its digest. -/
def logText : Bytes := [byte 0x6F, byte 0x6B, byte 0x0A]

def logDigest : PyStr := lit "dc51b8c96c2d745df3bd5590d990230a482fd247123599548e0632fdbf97fc22"

/-- What the rules do to such texts and to names in lower-case ASCII. -/
def logRules : ProducerRules where
  crypto :=
    { sha256 := fun b => if b = logText then logDigest else List.replicate 64 (cp 0x30)
      verifies := fun _ _ _ => false }
  lower := id
  str v :=
    match v with
    | .str s => s
    | _ => []
  schemaErrors _ := .ok []
  redactText s := .ok (s, [])
  limit _ := 900
  alnum c := (0x61 ≤ c.val && c.val ≤ 0x7A) || (0x30 ≤ c.val && c.val ≤ 0x39)

theorem logRules_lawful : logRules.Lawful where
  hex b := by
    show isSha256 (if b = logText then logDigest else List.replicate 64 (cp 0x30)) = true
    split <;> decide
  str_text _ := rfl
  lower_nil := rfl
  lower_idem _ := rfl
  lower_suffix t ht hdot hslash := ⟨t, rfl, ht, hdot, hslash⟩
  alnum_backslash := by decide
  redact_idem s out counts _ := ⟨[], rfl⟩
  redact_counts s out counts h := by
    obtain ⟨-, rfl⟩ := Prod.mk.inj (Except.ok.inj h)
    exact ⟨List.nodup_nil, rfl⟩

def logInstant : Instant := ⟨63000000000000000, sampleMicros_lt⟩

/-- A log collected with a label. -/
def logInput (name label : PyStr) :
    Input := ⟨lit "terminal", name, label, logText, logInstant, ⟨1, 7, 0⟩⟩

/-- The redaction of one of them. -/
def logOutput (a : Artifact) : Output := ⟨a, lit "ok\n", lit "ok\n", [], logText⟩

theorem log_made : makeDep [] (lit "DEP-1") = .ok (collected logRules [] (lit "DEP-1") []) := by rfl

/-- The files of the outputs. -/
def logFiles : PyStr → FileStamp := fun _ => ⟨1, 8, 0⟩

/-- An input with a suffix, and one without whose label has none either. -/
def namedLog : Artifact :=
  ⟨logInput (lit "app.log") (lit "run"), lit "terminal--run.log", lit "text/plain; charset=utf-8"⟩

def hiddenLog : Artifact :=
  ⟨logInput (lit "app") (lit ".log"), lit "terminal--.log", lit "application/octet-stream"⟩

theorem named_collected : collectAll logRules (collected logRules [] (lit "DEP-1") [])
    [namedLog.input]
    = .ok (collected logRules [] (lit "DEP-1") [namedLog]) := by rfl

theorem hidden_collected : collectAll logRules (collected logRules [] (lit "DEP-1") [])
    [hiddenLog.input]
    = .ok (collected logRules [] (lit "DEP-1") [hiddenLog]) := by rfl

theorem named_redacted : redact logRules (collected logRules [] (lit "DEP-1") [namedLog])
    logInstant logFiles
    = .ok (finished logRules [] (lit "DEP-1") logInstant logFiles [namedLog]
      [logOutput namedLog]) := by rfl

theorem hidden_redacted : redact logRules (collected logRules [] (lit "DEP-1") [hiddenLog])
    logInstant logFiles
    = .ok (finished logRules [] (lit "DEP-1") logInstant logFiles [hiddenLog]
      [logOutput hiddenLog]) := by rfl

theorem produced_accepted_sample :
    (suffixOf namedLog.input.name ≠ [] ∧ makeDep [] (lit "DEP-1")
      = .ok (collected logRules [] (lit "DEP-1") []))
      ∧ (Accepted logRules.toRules (finished logRules [] (lit "DEP-1") logInstant logFiles
        [namedLog] [logOutput namedLog])
          ((published logRules logFiles [logOutput namedLog]).report (lit "DEP-1") logInstant) false
        ↔ ∀ i ∈ [namedLog.input], suffixOf i.name ≠ []) :=
  ⟨⟨by decide, log_made⟩,
    produced_accepted_iff logRules_lawful log_made named_collected named_redacted rfl rfl false⟩

/-- A log without a suffix, collected as `.log`, gives a package that is not accepted. -/
theorem produced_not_accepted :
    ¬∀ (P : ProducerRules), P.Lawful →
    ∀ documents depId inputs generatedAt files p₀ p₁ q report portable,
      makeDep documents depId = .ok p₀ → collectAll P p₀ inputs = .ok p₁ →
      redact P p₁ generatedAt files = .ok q →
      q.redaction = some report → get (lit "blocked") report = .arr [] →
      get (lit "files") report ≠ .arr [] →
        Accepted P.toRules q report portable := by
  intro h
  have hof : hiddenLog.Of logRules := by
    refine ⟨by decide, by decide, ⟨1, by
      decide⟩, ⟨⟨by decide, by decide, by decide⟩, by decide, by decide⟩, rfl⟩
  have hout : (logOutput hiddenLog).Of logRules := by
    refine ⟨hof, by decide, by decide, by decide, rfl, by decide, by decide⟩
  have haccepted := h logRules logRules_lawful [] (lit "DEP-1")
    [hiddenLog.input] logInstant logFiles _ _ _ _ false log_made
    hidden_collected hidden_redacted rfl rfl (by decide)
  have hiff : Accepted logRules.toRules
      (finished logRules [] (lit "DEP-1") logInstant logFiles [hiddenLog] [logOutput hiddenLog])
      ((published logRules logFiles [logOutput hiddenLog]).report (lit "DEP-1") logInstant) false
      ↔ ∀ a ∈ [hiddenLog], suffixOf a.input.name ≠ [] :=
    finished_accepted_iff logRules_lawful (by simpa using hof) (by decide)
      (by simpa using ⟨rfl, hout⟩)
      (List.Perm.refl _) false
  have hsuffix := hiff.mp haccepted
  exact absurd (hsuffix hiddenLog (List.mem_singleton_self _)) (by decide)

end SddGov.Evidence
