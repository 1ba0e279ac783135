import SddGov.Git.Client
import SddGov.Python.Strip
import SddGov.Python.Utf8

/-!
# The name-status stream

`git diff --name-status -z` ends every field with a NUL, and the readers of its
output split at the NULs after the text was decoded and stripped. A whole
stream is read back as it was written (`read_whole`). A stream that was cut
inside a record is refused, except where a visible part of the record's last
path is there: nothing asks for the last NUL, and the part is taken for the
path (`read_cut`).
-/

namespace SddGov.Git

open SddGov.Python

/-! ## The output as text -/

/-- What `subprocess.run(..., text=True)` leaves of the output of a command that ended well. -/
def textRun (raw : Bytes) : Except Exn Completed :=
  match utf8Decode raw with
  | none => .error (valueError "UnicodeDecodeError")
  | some text => .ok (done (universalNewlines text))

/-- One of the two readers, run where git has left `raw`. -/
inductive Reads (G : Client) (raw : Bytes) : Except Exn (List PyStr) → Prop
  | changedPaths (start stop : PyStr) :
    G.run [lit "diff", lit "-M", lit "--name-status", lit "-z", start ++ lit "..." ++ stop]
      = textRun raw →
    Reads G raw (changedPaths G start stop)
  | commitEdgePaths (parent commit : PyStr) :
    G.run [lit "diff", lit "-M", lit "--name-status", lit "-z", parent, commit, lit "--"]
      = textRun raw →
    Reads G raw (commitEdgePaths G parent commit)

/-- Both readers do the same with a text; they differ in the message of their error. -/
def readText (message : String) (text : PyStr) : Except Exn (List PyStr) :=
  (nameStatusPaths message (nulFields (strip (universalNewlines text)))).map sortedSet

variable {G : Client} {raw : Bytes} {read : Except Exn (List PyStr)}

theorem git_textRun {args : List PyStr} {text : PyStr} (hrun : G.run args = textRun raw)
    (hraw : utf8Decode raw = some text) : git G args = .ok (strip (universalNewlines text)) := by
  unfold git
  rw [hrun, textRun, hraw]
  rfl

/-- A reader of decodable bytes reads their text. -/
theorem reads_text (h : Reads G raw read) {text : PyStr} (hraw : utf8Decode raw = some text) :
    ∃ message, read = readText message text := by
  cases h with
  | changedPaths start stop hrun =>
    refine ⟨"git diff produced an invalid NUL name-status record", ?_⟩
    unfold changedPaths readText
    rw [git_textRun hrun hraw]
    show (nameStatusPaths _ _ >>= _) = _
    cases nameStatusPaths _ (nulFields (strip (universalNewlines text))) <;> rfl
  | commitEdgePaths parent commit hrun =>
    refine ⟨"git diff produced an invalid commit-edge record", ?_⟩
    unfold commitEdgePaths readText
    rw [git_textRun hrun hraw]
    show (nameStatusPaths _ _ >>= _) = _
    cases nameStatusPaths _ (nulFields (strip (universalNewlines text))) <;> rfl

/-- Bytes that cannot be decoded are an error of their own. -/
theorem reads_undecodable (h : Reads G raw read) (hraw : utf8Decode raw = none) :
    read = .error (valueError "UnicodeDecodeError") := by
  have hrun {args : List PyStr} (hargs : G.run args = textRun raw) :
      git G args = .error (valueError "UnicodeDecodeError") := by
    unfold git
    rw [hargs, textRun, hraw]
    rfl
  cases h with
  | changedPaths start stop hargs =>
    unfold changedPaths
    rw [hrun hargs]
    rfl
  | commitEdgePaths parent commit hargs =>
    unfold commitEdgePaths
    rw [hrun hargs]
    rfl

/-! ## Whole records -/

/-- Whole records are read one after the other. -/
theorem nameStatusPaths_append (message : String) (records : List ChangeRecord)
    {rest : List PyStr} :
    nameStatusPaths message (records.flatMap ChangeRecord.fields ++ rest)
      = (nameStatusPaths message rest).map (records.flatMap ChangeRecord.paths ++ ·) := by
  induction records with
  | nil => cases h : nameStatusPaths message rest <;> simp [h, Except.map]
  | cons r records ih =>
    obtain ⟨status, source, path, ⟨c, more, rfl, hc⟩, hsourced, hclean⟩ := r
    rw [List.flatMap_cons, List.flatMap_cons, List.append_assoc]
    generalize htail : records.flatMap ChangeRecord.fields ++ rest = tail at ih
    cases source with
    | none =>
      have hone : hasSource (c :: more) = false := hsourced.symm
      cases tail with
      | nil =>
        -- the record is the last one, and nothing comes after it
        obtain ⟨hfields, hrest⟩ := List.append_eq_nil_iff.mp htail
        have hnil : records = [] := by
          rcases records with _ | ⟨q, records⟩
          · rfl
          · exact absurd hfields (by simp [ChangeRecord.fields])
        simp [ChangeRecord.fields, ChangeRecord.paths, nameStatusPaths, hone, hnil, hrest,
          Except.map]
      | cons s tail =>
        have hcons : nameStatusPaths message ((c :: more) :: path :: s :: tail)
            = (nameStatusPaths message (s :: tail)).map ([path] ++ ·) := by
          simp [nameStatusPaths, hone]
        simp only [ChangeRecord.fields, ChangeRecord.paths, Option.toList_none, List.nil_append,
          List.cons_append]
        rw [hcons, ih]
        cases nameStatusPaths message rest <;> simp [Except.map]
    | some source =>
      have htwo : hasSource (c :: more) = true := hsourced.symm
      have hcons : nameStatusPaths message ((c :: more) :: source :: path :: tail)
          = (nameStatusPaths message tail).map ([source, path] ++ ·) := by
        simp [nameStatusPaths, htwo]
      simp only [ChangeRecord.fields, ChangeRecord.paths, Option.toList_some, List.nil_append,
        List.cons_append]
      rw [hcons, ih]
      cases nameStatusPaths message rest <;> simp [Except.map]

/-- The fields of a record hold no carriage return. -/
def ChangeRecord.Unix (r : ChangeRecord) : Prop := ∀ s ∈ r.fields, NoReturn s

theorem noReturn_terminated {fields : List PyStr} (h : ∀ s ∈ fields, NoReturn s) :
    NoReturn (terminated nul fields) := by
  intro c hc
  rcases mem_terminated hc with rfl | ⟨s, hs, hc⟩
  · decide
  · exact h s hs c hc

theorem noReturn_nameStatusText {records : List ChangeRecord} (h : ∀ r ∈ records, r.Unix) :
    NoReturn (nameStatusText records) := by
  apply noReturn_terminated
  intro s hs
  obtain ⟨r, hr, hs⟩ := List.mem_flatMap.mp hs
  exact h r hr s hs

/-- **A whole stream is read back**: the paths of all its records. -/
theorem read_whole {records : List ChangeRecord} (hunix : ∀ r ∈ records, r.Unix)
    (hraw : utf8Encode (nameStatusText records) = some raw) (h : Reads G raw read) :
    read = .ok (sortedSet (records.flatMap ChangeRecord.paths)) := by
  obtain ⟨message, rfl⟩ := reads_text h (utf8Decode_utf8Encode hraw)
  unfold readText
  rw [universalNewlines_eq_self (noReturn_nameStatusText hunix), nulFields_nameStatusText,
    nameStatusPaths_fields]
  rfl

/-! ## Cut records -/

/-- The text of one record. -/
def ChangeRecord.text (r : ChangeRecord) : PyStr := terminated nul r.fields

/-- A NUL is no whitespace: nothing before it is stripped. -/
theorem rstrip_after_nul (s t : PyStr) : rstrip (s ++ nul :: t) = s ++ nul :: rstrip t := by
  unfold rstrip
  rw [List.reverse_append, List.reverse_cons, List.append_assoc, List.dropWhile_append]
  split
  · next hall =>
    have hnil : t.reverse.dropWhile isSpace = [] := by simpa using hall
    rw [hnil]
    simp [nul, isSpace]
  · simp

theorem rstrip_terminated (fields : List PyStr) (s : PyStr) (hne : fields ≠ []) :
    rstrip (terminated nul fields ++ s) = terminated nul fields ++ rstrip s := by
  rcases List.eq_nil_or_concat fields with rfl | ⟨init, last, rfl⟩
  · exact absurd rfl hne
  · have hsplit (u : PyStr) : terminated nul (init ++ [last]) ++ u
        = (terminated nul init ++ last) ++ nul :: u := by
      simp [terminated]
    rw [List.concat_eq_append, hsplit, hsplit, rstrip_after_nul]

/-- The fields of a stream whose last field is not ended. -/
theorem nulFields_cut {fields : List PyStr} (hfields : ∀ s ∈ fields, nul ∉ s) {s : PyStr}
    (hs : nul ∉ s) :
    nulFields (terminated nul fields ++ s) = if s = [] then fields else fields ++ [s] := by
  have hsplit : splitAt nul (terminated nul fields ++ s) = fields ++ [s] := by
    induction fields with
    | nil =>
      refine List.splitOnP_eq_singleton fun c hc => ?_
      rw [beq_eq_false_iff_ne]
      rintro rfl
      exact hs hc
    | cons f fields ih =>
      have hf : ∀ c ∈ f, (c == nul) = false := by
        intro c hc
        rw [beq_eq_false_iff_ne]
        rintro rfl
        exact hfields f (List.mem_cons_self ..) hc
      have hrest := ih fun t ht => hfields t (List.mem_cons_of_mem _ ht)
      unfold splitAt terminated at hrest ⊢
      rw [List.flatMap_cons, List.append_assoc, List.append_assoc, List.singleton_append,
        List.splitOnP_append_cons_of_forall_mem hf nul (beq_self_eq_true nul), hrest]
      rfl
  unfold nulFields dropEmptyLast
  rw [hsplit, List.getLast?_append]
  cases s with
  | nil => simp
  | cons c s => simp

/-- What comes before the last path of a record. -/
def ChangeRecord.head (r : ChangeRecord) : PyStr := terminated nul (r.status :: r.source.toList)

/-- Something of the record's last path can be seen at the end of the piece. -/
def ChangeRecord.Shows (r : ChangeRecord) (piece : PyStr) : Prop :=
  ∃ part, piece = r.head ++ part ∧ ∃ c ∈ part, isSpace c = false

/-- A piece of ended fields: the fields that are whole, and a part of the next one. -/
theorem cut_terminated {fields : List PyStr} {piece rest : PyStr}
    (h : terminated nul fields = piece ++ rest) (hrest : rest ≠ []) :
    ∃ whole next others part, fields = whole ++ next :: others
    ∧ piece = terminated nul whole ++ part
      ∧ part <+: next := by
  induction fields generalizing piece with
  | nil =>
    exact absurd (List.append_eq_nil_iff.mp h.symm).2 hrest
  | cons f fields ih =>
    have hcons : terminated nul (f :: fields) = (f ++ [nul]) ++ terminated nul fields := by
      simp [terminated]
    rw [hcons] at h
    rcases List.append_eq_append_iff.mp h with ⟨more, hpiece, hmore⟩ | ⟨more, hfield, hmore⟩
    · -- the field is whole
      obtain ⟨whole, next, others, part, rfl, hpart, hprefix⟩ := ih hmore
      refine ⟨f :: whole, next, others, part, rfl, ?_, hprefix⟩
      rw [hpiece, hpart]
      simp [terminated]
    · rcases List.eq_nil_or_concat more with rfl | ⟨init, last, rfl⟩
      · rw [List.append_nil] at hfield
        rw [List.nil_append] at hmore
        have hne : fields ≠ [] := by
          rintro rfl
          exact hrest hmore
        obtain ⟨next, others, rfl⟩ := List.exists_cons_of_ne_nil hne
        refine ⟨[f], next, others, [], rfl, ?_, List.nil_prefix⟩
        rw [← hfield]
        simp [terminated]
      · rw [List.concat_eq_append, ← List.append_assoc] at hfield
        refine ⟨[], f, fields, piece, rfl, rfl, init, ?_⟩
        exact ((List.append_inj' hfield rfl).1).symm

/-- The record shows its last path exactly where a visible part of it follows what comes before. -/
theorem ChangeRecord.shows_append {r : ChangeRecord} {part : PyStr} :
    r.Shows (r.head ++ part) ↔ rstrip part ≠ [] := by
  rw [Ne, rstrip_eq_nil]
  constructor
  · intro h hall
    obtain ⟨part', heq, c, hc, hvisible⟩ := h
    obtain rfl := List.append_cancel_left heq
    rw [hall c hc] at hvisible
    exact absurd hvisible (by simp)
  · intro h
    refine ⟨part, rfl, ?_⟩
    by_contra hnone
    refine h fun c hc => ?_
    by_contra hspace
    exact hnone ⟨c, hc, by simpa using hspace⟩

/-- Before its last path begins the record shows nothing of it. -/
theorem ChangeRecord.not_shows {r : ChangeRecord} {piece : PyStr}
    (h : piece.length < r.head.length) :
    ¬r.Shows piece := by
  intro hshows
  obtain ⟨part, rfl, -⟩ := hshows
  rw [List.length_append] at h
  omega

/-- The first field cannot be blank. -/
theorem ChangeRecord.rstrip_status {r : ChangeRecord} {part : PyStr} (hpart : part <+: r.status)
    (hne : part ≠ []) : rstrip part ≠ [] := by
  obtain ⟨c, more, hstatus, hc⟩ := r.letter
  obtain ⟨d, rest, rfl⟩ := List.exists_cons_of_ne_nil hne
  rw [hstatus, List.cons_prefix_cons] at hpart
  obtain ⟨rfl, -⟩ := hpart
  intro hnil
  rw [rstrip_eq_nil] at hnil
  rw [hnil d (List.mem_cons_self ..)] at hc
  exact absurd hc (by simp)

/-- The fields that are there of a record that was cut. -/
def cutFields (whole : List PyStr) (part : PyStr) : List PyStr :=
  if rstrip part = [] then whole else whole ++ [rstrip part]

/-- What the loop says of a record whose last field may be missing or cut. -/
theorem nameStatusPaths_cut (message : String) (r : ChangeRecord) {whole others : List PyStr}
    {next part : PyStr} (hfields : r.fields = whole ++ next :: others) (hpart : part <+: next)
    (hne : terminated nul whole ++ part ≠ []) :
    (r.Shows (terminated nul whole ++ part)
        ∧ ∃ paths, nameStatusPaths message (cutFields whole part) = .ok paths)
      ∨ (¬r.Shows (terminated nul whole ++ part)
        ∧ nameStatusPaths message (cutFields whole part) = .error (valueError message)) := by
  have hletter := r.letter
  have hsourced := r.sourced
  have hlength := hpart.length_le
  unfold ChangeRecord.fields ChangeRecord.paths at hfields
  cases whole with
  | nil =>
    -- the status itself is cut
    obtain ⟨rfl, -⟩ := List.cons.inj hfields
    rw [terminated, List.flatMap_nil, List.nil_append] at hne ⊢
    refine .inr ⟨ChangeRecord.not_shows ?_, ?_⟩
    · simp [ChangeRecord.head, terminated]
      omega
    · rw [cutFields, if_neg (ChangeRecord.rstrip_status hpart hne)]
      rfl
  | cons s whole =>
    rw [List.cons_append] at hfields
    obtain ⟨hs, htail⟩ := List.cons.inj hfields
    clear hfields
    subst hs
    obtain ⟨c, more, hstatus, -⟩ := hletter
    have hempty : r.status.isEmpty = false := by simp [hstatus]
    cases hsource : r.source with
    | none =>
      rw [hsource] at htail hsourced
      have hone : hasSource r.status = false := hsourced.symm
      rw [Option.toList_none, List.nil_append] at htail
      obtain rfl : whole = [] := by
        cases whole with
        | nil => rfl
        | cons t whole => exact absurd (congrArg List.length htail) (by simp)
      have hhead : terminated nul [r.status] = r.head := by simp [ChangeRecord.head, hsource]
      rw [hhead]
      by_cases hblank : rstrip part = []
      · refine .inr ⟨fun h => ChangeRecord.shows_append.mp h hblank, ?_⟩
        rw [cutFields, if_pos hblank]
        rfl
      · refine .inl ⟨ChangeRecord.shows_append.mpr hblank, [rstrip part], ?_⟩
        rw [cutFields, if_neg hblank]
        simp [nameStatusPaths, hempty, hone]
    | some source =>
      rw [hsource] at htail hsourced
      have htwo : hasSource r.status = true := hsourced.symm
      rw [Option.toList_some, List.singleton_append] at htail
      cases whole with
      | nil =>
        -- the source is cut
        obtain ⟨rfl, -⟩ := List.cons.inj htail
        refine .inr ⟨ChangeRecord.not_shows ?_, ?_⟩
        · simp [ChangeRecord.head, hsource, terminated]
          omega
        · unfold cutFields
          split
          · rfl
          · simp [nameStatusPaths, hempty, htwo]
      | cons t whole =>
        rw [List.cons_append] at htail
        obtain ⟨rfl, hlast⟩ := List.cons.inj htail
        obtain rfl : whole = [] := by
          cases whole with
          | nil => rfl
          | cons u whole => exact absurd (congrArg List.length hlast) (by simp)
        have hhead : terminated nul [r.status, source] = r.head := by
          simp [ChangeRecord.head, hsource]
        rw [hhead]
        by_cases hblank : rstrip part = []
        · refine .inr ⟨fun h => ChangeRecord.shows_append.mp h hblank, ?_⟩
          rw [cutFields, if_pos hblank]
          simp [nameStatusPaths, hempty, htwo]
        · refine .inl ⟨ChangeRecord.shows_append.mpr hblank, [source, rstrip part], ?_⟩
          rw [cutFields, if_neg hblank]
          simp [nameStatusPaths, hempty, htwo, Except.map]

/-- A text cut inside its last record: refused, or read as if the part were the path. -/
theorem readText_cut (message : String) (records : List ChangeRecord) (r : ChangeRecord)
    (hunix : ∀ q ∈ r :: records, q.Unix) {piece rest : PyStr} (htext : r.text = piece ++ rest)
    (hpiece : piece ≠ []) (hrest : rest ≠ []) :
    (∃ e, readText message (nameStatusText records ++ piece) = .error (.value e)) ↔
    ¬r.Shows piece := by
  obtain ⟨whole, next, others, part, hfields, rfl, hpart⟩ := cut_terminated htext hrest
  have hclean : ∀ s ∈ records.flatMap ChangeRecord.fields ++ whole, nul ∉ s := by
    intro s hs
    rcases List.mem_append.mp hs with hs | hs
    · obtain ⟨q, -, hq⟩ := List.mem_flatMap.mp hs
      exact q.clean s hq
    · refine r.clean s ?_
      show s ∈ r.fields
      rw [hfields]
      exact List.mem_append_left _ hs
  have hpartClean : nul ∉ rstrip part := by
    intro hmem
    refine r.clean next ?_ (hpart.subset ((rstrip_front part).subset hmem))
    show next ∈ r.fields
    rw [hfields]
    simp
  have hnoReturn : NoReturn (nameStatusText records ++ (terminated nul whole ++ part)) := by
    intro c hc
    rcases List.mem_append.mp hc with hc | hc
    · exact noReturn_nameStatusText (fun q hq => hunix q (List.mem_cons_of_mem _ hq)) c hc
    · refine noReturn_terminated (hunix r (List.mem_cons_self ..)) c ?_
      show c ∈ r.text
      rw [htext]
      exact List.mem_append_left _ hc
  have hjoin : nameStatusText records ++ (terminated nul whole ++ part)
      = terminated nul (records.flatMap ChangeRecord.fields ++ whole) ++ part := by
    simp [nameStatusText, terminated]
  -- the text starts with a status, and so nothing is stripped there
  have hstrip : strip (nameStatusText records ++ (terminated nul whole ++ part))
      = terminated nul (records.flatMap ChangeRecord.fields ++ whole) ++ rstrip part := by
    have hfirst : ∃ c more, nameStatusText records ++ (terminated nul whole ++ part) = c :: more
        ∧ isSpace c = false := by
      have hstarts (q : ChangeRecord) {t u : PyStr} (h : q.text = t ++ u) (ht : t ≠ [])
        (v : PyStr) :
          ∃ c more, t ++ v = c :: more ∧ isSpace c = false := by
        obtain ⟨c, more, hstatus, hc⟩ := q.letter
        obtain ⟨d, t, rfl⟩ := List.exists_cons_of_ne_nil ht
        have hd : d = c := by
          have hcons : q.text = c :: (more ++ [nul] ++ terminated nul q.paths) := by
            simp [ChangeRecord.text, ChangeRecord.fields, terminated, hstatus]
          rw [hcons, List.cons_append] at h
          exact (List.cons.inj h).1.symm
        exact ⟨d, t ++ v, rfl, by rw [hd]; exact hc⟩
      cases records with
      | nil =>
        obtain ⟨c, more, heq, hc⟩ := hstarts r htext hpiece []
        rw [List.append_nil] at heq
        exact ⟨c, more, heq, hc⟩
      | cons q records =>
        have hq : nameStatusText (q :: records) = q.text ++ nameStatusText records := by
          simp [nameStatusText, ChangeRecord.text, terminated]
        have hne : q.text ≠ [] := by
          obtain ⟨c, more, hstatus, -⟩ := q.letter
          simp [ChangeRecord.text, ChangeRecord.fields, terminated]
        rw [hq, List.append_assoc]
        exact hstarts q (List.append_nil _).symm hne _
    obtain ⟨c, more, hcons, hc⟩ := hfirst
    rw [strip_eq_rstrip hcons hc, hjoin]
    by_cases hnil : records.flatMap ChangeRecord.fields ++ whole = []
    · -- only a part of the first status is there
      obtain ⟨-, rfl⟩ := List.append_eq_nil_iff.mp hnil
      rw [hnil]
      rfl
    · exact rstrip_terminated _ _ hnil
  have hread : readText message (nameStatusText records ++ (terminated nul whole ++ part))
      = (nameStatusPaths message (cutFields whole part)).map
        fun paths => sortedSet (records.flatMap ChangeRecord.paths ++ paths) := by
    have hfields' : (if rstrip part = [] then records.flatMap ChangeRecord.fields ++ whole
        else records.flatMap ChangeRecord.fields ++ whole ++ [rstrip part])
        = records.flatMap ChangeRecord.fields ++ cutFields whole part := by
      unfold cutFields
      split
      · rfl
      · rw [List.append_assoc]
    unfold readText
    rw [universalNewlines_eq_self hnoReturn, hstrip, nulFields_cut hclean hpartClean, hfields',
      nameStatusPaths_append]
    cases nameStatusPaths message (cutFields whole part) <;> rfl
  rw [hread]
  rcases nameStatusPaths_cut message r hfields hpart hpiece with ⟨hshows, paths, hok⟩
    | ⟨hshows, herror⟩
  · rw [hok]
    constructor
    · intro h
      obtain ⟨e, he⟩ := h
      exact absurd he (by simp [Except.map])
    · intro h
      exact absurd hshows h
  · rw [herror]
    exact ⟨fun _ => hshows, fun _ => ⟨lit message, rfl⟩⟩

/-! ## Streams -/

/-- A byte stream that ends inside the encoded text of `r`, after the encoded text of `records`. -/
structure CutStream (records : List ChangeRecord) (r : ChangeRecord) (piece : Bytes) (raw : Bytes) :
    Prop where
  unix : ∀ q ∈ r :: records, q.Unix
  stream : ∃ front, utf8Encode (nameStatusText records) = some front ∧ raw = front ++ piece
  inside : ∃ rest, utf8Encode r.text = some (piece ++ rest) ∧ rest ≠ []
  begun : piece ≠ []

/-- The bytes are whole characters, and they show something of the last path. -/
def ChangeRecord.ShowsBytes (r : ChangeRecord) (piece : Bytes) : Prop :=
  ∃ text, utf8Decode piece = some text ∧ r.Shows text

/-- A cut inside a record is an error exactly if it does not show the record's bytes. -/
theorem read_cut {records : List ChangeRecord} {r : ChangeRecord} {piece : Bytes}
    (hcut : CutStream records r piece raw) (h : Reads G raw read) :
    (∃ e, read = .error (.value e)) ↔ ¬r.ShowsBytes piece := by
  obtain ⟨front, hfront, rfl⟩ := hcut.stream
  obtain ⟨rest, hwhole, hrest⟩ := hcut.inside
  have hdecode := utf8Decode_append (utf8Decode_utf8Encode hfront) piece
  cases hpiece : utf8Decode piece with
  | none =>
    rw [hpiece] at hdecode
    rw [reads_undecodable h hdecode]
    refine ⟨fun _ hshows => ?_, fun _ => ⟨_, rfl⟩⟩
    obtain ⟨text, htext, -⟩ := hshows
    rw [hpiece] at htext
    exact absurd htext (by simp)
  | some text =>
    rw [hpiece] at hdecode
    obtain ⟨message, rfl⟩ := reads_text h hdecode
    -- the rest of the record decodes as well
    have hrecord := utf8Decode_append hpiece rest
    rw [utf8Decode_utf8Encode hwhole] at hrecord
    obtain ⟨more, hmore, htext⟩ := Option.map_eq_some_iff.mp hrecord.symm
    have hne : text ≠ [] := by
      rintro rfl
      exact hcut.begun (utf8Decode_eq_nil hpiece)
    have hmoreNe : more ≠ [] := by
      rintro rfl
      exact hrest (utf8Decode_eq_nil hmore)
    have hshows : r.ShowsBytes piece ↔ r.Shows text := by
      constructor
      · intro hbytes
        obtain ⟨text', htext', hs⟩ := hbytes
        rw [hpiece] at htext'
        obtain rfl := Option.some.inj htext'
        exact hs
      · intro hs
        exact ⟨text, hpiece, hs⟩
    rw [hshows]
    exact readText_cut message records r hcut.unix htext.symm hne hmoreNe

/-- **What the readers make of a stream.** A whole stream gives the paths of its records. A stream
that ends inside a record is refused exactly where it shows nothing of the record's last path. -/
theorem name_status_iff (h : Reads G raw read) :
    (∀ records : List ChangeRecord, (∀ r ∈ records, r.Unix) →
      utf8Encode (nameStatusText records) = some raw →
      read = .ok (sortedSet (records.flatMap ChangeRecord.paths)))
    ∧ ∀ records r piece, CutStream records r piece raw →
      ((∃ e, read = .error (.value e)) ↔ ¬r.ShowsBytes piece) :=
  ⟨fun _ hunix hraw => read_whole hunix hraw h, fun _ _ _ hcut => read_cut hcut h⟩

/-! ## Two records -/

/-- A change to `src`. -/
def editedRecord : ChangeRecord where
  status := lit "M"
  source := none
  path := lit "src"
  letter := ⟨cp 0x4D, [], rfl, by decide⟩
  sourced := by decide
  clean := by decide

/-- `a` moved to `b`. -/
def movedRecord : ChangeRecord where
  status := lit "R100"
  source := some (lit "a")
  path := lit "b"
  letter := ⟨cp 0x52, lit "100", rfl, by decide⟩
  sourced := by decide
  clean := by decide

/-- A client on which every command leaves these bytes. -/
def leaving (raw : Bytes) : Client := ⟨fun _ => textRun raw, fun _ => textRun raw⟩

/-- The bytes of an ASCII text. -/
def asciiBytes (s : PyStr) : Bytes := s.map fun c => byte c.val

theorem leaving_run (raw : Bytes) (args : List PyStr) : (leaving raw).run args = textRun raw := rfl

/-- ASCII text without a carriage return, decided character by character. -/
theorem noReturn_of_all {s : PyStr} (h : (s.all fun c => c.val != 0x0D) = true) : NoReturn s := by
  intro c hc
  simpa using List.all_eq_true.mp h c hc

theorem sampleRecords_unix : ∀ r ∈ [movedRecord, editedRecord], r.Unix := by
  intro r hr s hs
  have hall : ([movedRecord, editedRecord].all fun q => q.fields.all fun t =>
      t.all fun c => c.val != 0x0D) = true := by decide
  exact noReturn_of_all (List.all_eq_true.mp (List.all_eq_true.mp hall r hr) s hs)

/-- The whole stream, and the stream that was cut before the new name. -/
theorem name_status_sample :
    changedPaths (leaving (asciiBytes (nameStatusText [editedRecord, movedRecord]))) (lit "main")
    (lit "HEAD")
      = .ok (sortedSet ([editedRecord, movedRecord].flatMap ChangeRecord.paths))
    ∧ ∃ e, commitEdgePaths (leaving (asciiBytes (editedRecord.text ++ movedRecord.head)))
      (lit "p") (lit "c")
      = .error (.value e) := by
  constructor
  · refine (name_status_iff (.changedPaths _ _ (leaving_run _ _))).1 [editedRecord, movedRecord] ?_
      (by decide)
    intro r hr
    exact sampleRecords_unix r (List.mem_reverse.mp hr)
  · refine ((name_status_iff (.commitEdgePaths _ _ (leaving_run _ _))).2 [editedRecord] movedRecord
      (asciiBytes movedRecord.head) ⟨sampleRecords_unix, ?_, ?_, by decide⟩).mpr ?_
    · exact ⟨asciiBytes editedRecord.text, by decide, by decide⟩
    · exact ⟨asciiBytes (lit "b" ++ [nul]), by decide, by decide⟩
    · intro hshows
      obtain ⟨text, htext, hs⟩ := hshows
      have hhead : utf8Decode (asciiBytes movedRecord.head) = some (movedRecord.head ++ []) := by
        decide
      rw [hhead] at htext
      obtain rfl := Option.some.inj htext
      exact ChangeRecord.shows_append.mp hs rfl

/-- A stream that ends in the middle of its only path is read with what is left of the path. -/
theorem cut_path_accepted :
    CutStream [] editedRecord (asciiBytes (editedRecord.head ++ lit "sr"))
        (asciiBytes (editedRecord.head ++ lit "sr"))
      ∧ changedPaths (leaving (asciiBytes (editedRecord.head ++ lit "sr"))) (lit "main")
        (lit "HEAD")
        = .ok [lit "sr"] := by
  refine ⟨⟨?_, ⟨[], rfl, rfl⟩, ⟨asciiBytes (lit "c" ++ [nul]), by decide, by decide⟩, by decide⟩,
    by decide⟩
  intro q hq
  exact sampleRecords_unix q (List.mem_cons_of_mem _ hq)

end SddGov.Git
