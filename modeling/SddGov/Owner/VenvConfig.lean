import SddGov.Python.Exn
import SddGov.Python.LineParts

/-!
# The virtual environment's configuration

`_require_isolated_venv_config` beside CPython's own reading of `pyvenv.cfg`. The
first breaks the text with `splitlines`, the second at line ends only. What
CPython takes for the key of a line is the key of the line's first part that is
not blank (`key_of_line`), and the value of the setting is not `true` where the
first accepted it (`value_of_line`); so the two agree exactly where the setting is
the first part of its line (`isolation_agrees_iff`).
-/

namespace SddGov.Owner

open SddGov.Python

/-- `str.lower`, of which is used that a text with an equals sign keeps one. -/
structure Lower where
  map : PyStr → PyStr
  keeps : ∀ s, cp 0x3D ∈ s → cp 0x3D ∈ map s

variable (lower : Lower)

/-- `"="` -/
def equalsSign : CodePoint := cp 0x3D

/-- The key of the setting. -/
def includeSystemSites : PyStr := lit "include-system-site-packages"

/-- What stands before the first equals sign. -/
def beforeEquals (s : PyStr) : PyStr := s.takeWhile (· != equalsSign)

/-- And what stands after it. -/
def afterEquals (s : PyStr) : PyStr := (s.dropWhile (· != equalsSign)).tail

/-! ## The Owner's check -/

/-- The entry a line of the file gives. -/
def settingOf (rawLine : PyStr) : PyStr × PyStr :=
  let line := strip rawLine
  (lower.map (strip (beforeEquals line)), lower.map (strip (afterEquals line)))

/-- The loop over the lines. -/
def readSettings : List PyStr → List (PyStr × PyStr) → Except Exn (List (PyStr × PyStr))
  | [], entries => .ok entries
  | rawLine :: rest, entries =>
    if isBlank rawLine then readSettings rest entries
    else if equalsSign ∉ strip rawLine then
      .error (valueError "Owner client pyvenv.cfg contains a malformed setting")
    else if (settingOf lower rawLine).1 = [] ∨ (settingOf lower rawLine).1
      ∈ entries.map Prod.fst then
      .error (valueError "Owner client pyvenv.cfg contains duplicate settings")
    else readSettings rest (entries ++ [settingOf lower rawLine])

/-- `_require_isolated_venv_config` -/
def requireIsolatedVenvConfig (raw : Bytes) : Except Exn Unit :=
  match utf8Decode raw with
  | none => .error (valueError "Owner client pyvenv.cfg must be UTF-8")
  | some text => do
    let entries ← readSettings lower (splitLines text) []
    if entries.lookup includeSystemSites ≠ some (lit "false") then
      .error (valueError "Owner client virtual environment must exclude system site packages")
    else .ok ()

/-! ## CPython's rule -/

/-- One line: the setting so far, and after the line. -/
def readLine (setting line : PyStr) : PyStr :=
  if equalsSign ∈ line ∧ lower.map (strip (beforeEquals line)) = includeSystemSites then
    lower.map (strip (afterEquals line))
  else setting

/-- The last setting counts, and the system sites are included without one. -/
def systemSiteSetting (text : PyStr) : PyStr := (textLines text).foldl (readLine lower) (lit "true")

/-- CPython includes the system site packages. -/
def includesSystemSites (text : PyStr) : Bool := systemSiteSetting lower text == lit "true"

/-! ## The parts of a line -/

theorem parts_of_free {s : PyStr} (h : ∀ c ∈ s, isLineBreak c = false) :
    parts s = if isBlank s then [] else [s] := by
  unfold parts
  rw [List.splitOnP_eq_singleton h]
  by_cases hblank : isBlank s = true
  · rw [if_pos hblank]
    simp [hblank]
  · rw [if_neg hblank]
    simp [hblank]

theorem parts_cut {front tail : PyStr} {c : CodePoint} (hc : isLineBreak c = true) :
    parts (front ++ c :: tail) = parts front ++ parts tail := by
  unfold parts
  rw [List.splitOnP_append_cons front tail hc, List.filter_append]

/-- A text has no line break, or a first one. -/
theorem exists_cut (s : PyStr) : (∀ c ∈ s, isLineBreak c = false) ∨ ∃ front c tail,
    s = front ++ c :: tail ∧ (∀ c ∈ front, isLineBreak c = false) ∧ isLineBreak c = true := by
  induction s with
  | nil => exact .inl (by simp)
  | cons d s ih =>
    by_cases hd : isLineBreak d = true
    · exact .inr ⟨[], d, s, rfl, by simp, hd⟩
    · have hd : isLineBreak d = false := by simpa using hd
      rcases ih with hfree | ⟨front, c, tail, rfl, hfree, hc⟩
      · exact .inl (List.forall_mem_cons.mpr ⟨hd, hfree⟩)
      · exact .inr ⟨d :: front, c, tail, rfl, List.forall_mem_cons.mpr ⟨hd, hfree⟩, hc⟩

/-- A line with its first part: only whitespace before it, and the other parts behind it. -/
theorem parts_spec (s : PyStr) :
    (parts s = [] → ∀ c ∈ s, isSpace c = true)
      ∧ (∀ part ∈ parts s, ∀ c ∈ part, c ∈ s)
      ∧ ∀ part rest, parts s = part :: rest → ∃ blank behind, s = blank ++ part ++ behind
        ∧ (∀ c ∈ blank, isSpace c = true) ∧ (rest = [] → ∀ c ∈ behind, isSpace c = true)
        ∧ ∀ part' ∈ rest, ∀ c ∈ part', c ∈ behind := by
  generalize hn : s.length = n
  induction n using Nat.strongRecOn generalizing s with
  | ind n ih =>
    rcases exists_cut s with hfree | ⟨front, c, tail, rfl, hfree, hc⟩
    · rw [parts_of_free hfree]
      by_cases hblank : isBlank s = true
      · rw [if_pos hblank]
        exact ⟨fun _ => List.all_eq_true.mp hblank, by simp, by simp⟩
      · rw [if_neg hblank]
        refine ⟨by simp, by simp, ?_⟩
        intro part rest h
        obtain ⟨rfl, rfl⟩ := List.cons.inj h
        exact ⟨[], [], by simp, by simp, by simp, by simp⟩
    · obtain ⟨htailNil, htailMem, htail⟩ := ih tail.length
        (by rw [← hn, List.length_append, List.length_cons]; omega) tail rfl
      have hspace := isSpace_of_isLineBreak hc
      have hrest : parts tail = [] → ∀ d ∈ c :: tail, isSpace d = true := fun hnil =>
        List.forall_mem_cons.mpr ⟨hspace, htailNil hnil⟩
      rw [parts_cut hc, parts_of_free hfree]
      by_cases hblank : isBlank front = true
      · have hfront := List.all_eq_true.mp hblank
        rw [if_pos hblank, List.nil_append]
        refine ⟨?_, ?_, ?_⟩
        · intro hnil d hd
          rcases List.mem_append.mp hd with hd | hd
          · exact hfront d hd
          · exact hrest hnil d hd
        · intro part hpart d hd
          exact List.mem_append_right _ (List.mem_cons_of_mem _ (htailMem part hpart d hd))
        · intro part rest h
          obtain ⟨blank, behind, rfl, hbefore, hbehind⟩ := htail part rest h
          refine ⟨front ++ c :: blank, behind, by simp, ?_, hbehind⟩
          intro d hd
          rcases List.mem_append.mp hd with hd | hd
          · exact hfront d hd
          · rcases List.mem_cons.mp hd with rfl | hd
            · exact hspace
            · exact hbefore d hd
      · rw [if_neg hblank, List.singleton_append]
        refine ⟨by simp, ?_, ?_⟩
        · intro part hpart d hd
          rcases List.mem_cons.mp hpart with rfl | hpart
          · exact List.mem_append_left _ hd
          · exact List.mem_append_right _ (List.mem_cons_of_mem _ (htailMem part hpart d hd))
        · intro part rest h
          obtain ⟨rfl, rfl⟩ := List.cons.inj h
          refine ⟨[], c :: tail, by simp, by simp, hrest, ?_⟩
          intro part' hpart d hd
          exact List.mem_cons_of_mem _ (htailMem part' hpart d hd)

/-! ## Keys and values -/

theorem equalsSign_not_space {c : CodePoint} (h : isSpace c = true) : c ≠ equalsSign := by
  rintro rfl
  exact absurd h (by decide)

theorem before_append {front s : PyStr} (h : ∀ c ∈ front, c ≠ equalsSign) :
    beforeEquals (front ++ s) = front ++ beforeEquals s := by
  unfold beforeEquals
  rw [List.takeWhile_append_of_pos]
  intro c hc
  simpa using h c hc

theorem after_append {front s : PyStr} (h : ∀ c ∈ front, c ≠ equalsSign) :
    afterEquals (front ++ s) = afterEquals s := by
  unfold afterEquals
  rw [List.dropWhile_append_of_pos]
  intro c hc
  simpa using h c hc

/-- A text with an equals sign, cut at the first one. -/
theorem exists_equals {s : PyStr} (h : equalsSign ∈ s) : ∃ key value, s = key ++ equalsSign :: value
    ∧ ∀ c ∈ key, c ≠ equalsSign := by
  induction s with
  | nil => cases h
  | cons c s ih =>
    by_cases hc : c = equalsSign
    · exact ⟨[], s, by rw [hc]; rfl, by simp⟩
    · obtain ⟨key, value, rfl, hkey⟩ := ih ((List.mem_cons.mp h).resolve_left (Ne.symm hc))
      exact ⟨c :: key, value, rfl, List.forall_mem_cons.mpr ⟨hc, hkey⟩⟩

theorem before_equals {key value : PyStr} (h : ∀ c ∈ key, c ≠ equalsSign) :
    beforeEquals (key ++ equalsSign :: value) = key := by
  rw [before_append h]
  unfold beforeEquals
  rw [List.takeWhile_cons_of_neg (by simp), List.append_nil]

theorem after_equals {key value : PyStr} (h : ∀ c ∈ key, c ≠ equalsSign) :
    afterEquals (key ++ equalsSign :: value) = value := by
  rw [after_append h]
  unfold afterEquals
  rw [List.dropWhile_cons_of_neg (by simp), List.tail_cons]

/-- What is no whitespace stays. -/
theorem mem_strip {s : PyStr} {c : CodePoint} (h : c ∈ s) (hc : isSpace c = false) :
    c ∈ strip s := by
  obtain ⟨before, behind, hs, hbefore, hbehind⟩ := strip_spec s
  have hne : isSpace c ≠ true := by simp [hc]
  rw [hs] at h
  rcases List.mem_append.mp h with h | h
  · rcases List.mem_append.mp h with h | h
    · exact absurd (hbefore c h) hne
    · exact h
  · exact absurd (hbehind c h) hne

/-- The setting a line holds for CPython: its key is that of the first part, and its value is that
of the part, or what stands behind the part is no blank. -/
theorem setting_of_line {line part behind blank : PyStr} (hline : line = blank ++ part ++ behind)
    (hblank : ∀ c ∈ blank, isSpace c = true) (hpart : equalsSign ∈ strip part) :
    equalsSign ∈ line ∧ lower.map (strip (beforeEquals line)) = (settingOf lower part).1
      ∧ ((∀ c ∈ behind, isSpace c = true) → lower.map (strip (afterEquals line))
        = (settingOf lower part).2)
      ∧ ((∃ c ∈ behind, c = equalsSign) → equalsSign ∈ strip (afterEquals line)) := by
  obtain ⟨before, after, hstrip, hbefore, hafter⟩ := strip_spec part
  obtain ⟨key, value, hcut, hkey⟩ := exists_equals hpart
  have hfront : ∀ c ∈ blank ++ before, isSpace c = true := by
    intro c hc
    rcases List.mem_append.mp hc with hc | hc
    · exact hblank c hc
    · exact hbefore c hc
  have hwhole : line = (blank ++ before ++ key) ++ equalsSign :: (value ++ (after ++ behind)) := by
    rw [hline, hstrip, hcut]
    simp only [List.append_assoc, List.cons_append]
  have hclean : ∀ c ∈ blank ++ before ++ key, c ≠ equalsSign := by
    intro c hc
    rcases List.mem_append.mp hc with hc | hc
    · exact equalsSign_not_space (hfront c hc)
    · exact hkey c hc
  have hsetting : settingOf lower part = (lower.map (strip key), lower.map (strip value)) := by
    unfold settingOf
    dsimp only
    rw [hcut, before_equals hkey, after_equals hkey]
  refine ⟨?_, ?_, ?_, ?_⟩
  · rw [hwhole]
    simp
  · rw [hwhole, before_equals hclean, hsetting, strip_blank_append hfront]
  · intro hbehind
    have hblankAfter : ∀ c ∈ after ++ behind, isSpace c = true := by
      intro c hc
      rcases List.mem_append.mp hc with hc | hc
      · exact hafter c hc
      · exact hbehind c hc
    rw [hwhole, after_equals hclean, hsetting, strip_append_blank hblankAfter]
  · rintro ⟨c, hc, rfl⟩
    rw [hwhole, after_equals hclean]
    exact mem_strip (List.mem_append_right _ (List.mem_append_right _ hc)) (by decide)

/-! ## What was accepted -/

/-- Every part that was read has an equals sign, no two have the same key, and each has its
entry. -/
theorem readSettings_ok {lines : List PyStr} {entries final : List (PyStr × PyStr)}
    (h : readSettings lower lines entries = .ok final) (hnodup : (entries.map Prod.fst).Nodup) :
    (∀ part ∈ lines.filter fun part => !isBlank part, equalsSign ∈ strip part)
      ∧ final = entries ++ (lines.filter fun part => !isBlank part).map (settingOf lower)
      ∧ (final.map Prod.fst).Nodup := by
  induction lines generalizing entries with
  | nil =>
    obtain rfl := Except.ok.inj h
    exact ⟨by simp, by simp, hnodup⟩
  | cons rawLine lines ih =>
    unfold readSettings at h
    split at h
    · next hblank =>
      rw [List.filter_cons_of_neg (by simp [hblank])]
      exact ih h hnodup
    · next hblank =>
      split at h
      · cases h
      · next hequals =>
        split at h
        · cases h
        · next hkey =>
          rw [not_not] at hequals
          rw [not_or] at hkey
          have hnew : ((entries ++ [settingOf lower rawLine]).map Prod.fst).Nodup := by
            rw [List.map_append, List.map_singleton, ← List.concat_eq_append, List.nodup_concat]
            exact ⟨hkey.2, hnodup⟩
          obtain ⟨hall, hfinal, hkeys⟩ := ih h hnew
          rw [List.filter_cons_of_pos (by simpa using hblank)]
          refine ⟨List.forall_mem_cons.mpr ⟨hequals, hall⟩, ?_, hkeys⟩
          rw [hfinal, List.map_cons, List.append_assoc, List.singleton_append]

/-- With different keys, a value that is there is the one looked up. -/
theorem lookup_eq_of_mem {entries : List (PyStr × PyStr)} (h : (entries.map Prod.fst).Nodup)
    {key value value' : PyStr}
    (hmem : (key, value) ∈ entries) (hlookup : entries.lookup key = some value') :
    value = value' := by
  induction entries with
  | nil => cases hmem
  | cons e entries ih =>
    rw [List.map_cons, List.nodup_cons] at h
    rw [List.lookup_cons] at hlookup
    by_cases hkey : key = e.1
    · have hsame : (key == e.1) = true := beq_iff_eq.mpr hkey
      rw [hsame] at hlookup
      rcases List.mem_cons.mp hmem with he | he
      · rw [← he] at hlookup
        exact Option.some.inj hlookup
      · exact absurd (List.mem_map_of_mem (f := Prod.fst) he) (by rw [hkey]; exact h.1)
    · have hother : (key == e.1) = false := beq_eq_false_iff_ne.mpr hkey
      rw [hother] at hlookup
      refine ih h.2 ((List.mem_cons.mp hmem).resolve_left fun he => hkey ?_) hlookup
      rw [← he]

/-- What the check guarantees of the parts of the file's lines. -/
structure Accepted (text : PyStr) : Prop where
  equals : ∀ part ∈ (textLines text).flatMap parts, equalsSign ∈ strip part
  excluded : ∀ part ∈ (textLines text).flatMap parts, (settingOf lower part).1
    = includeSystemSites →
    (settingOf lower part).2 = lit "false"

/-- An accepted file has an accepted text. -/
theorem accepted_of_ok {raw : Bytes} (h : requireIsolatedVenvConfig lower raw = .ok ()) :
    ∃ text, utf8Decode raw = some text ∧ Accepted lower text := by
  unfold requireIsolatedVenvConfig at h
  split at h
  · cases h
  · next text hdecode =>
    obtain ⟨entries, hread, h⟩ := except_bind_ok.mp h
    split at h
    · cases h
    · next hlookup =>
      rw [not_not] at hlookup
      obtain ⟨hequals, hentries, hnodup⟩ := readSettings_ok lower hread List.nodup_nil
      rw [splitLines_parts] at hequals hentries
      refine ⟨text, hdecode, hequals, ?_⟩
      intro part hpart hkey
      refine lookup_eq_of_mem hnodup ?_ hlookup
      rw [hentries, List.nil_append, ← hkey]
      exact List.mem_map_of_mem hpart

/-! ## The two readings -/

/-- The setting is the first part of the line. -/
def SettingLeads (line : PyStr) : Prop :=
  ∃ part rest, parts line = part :: rest ∧ (settingOf lower part).1 = includeSystemSites

variable {lower}

/-- A line that does not begin with the setting does not set it. -/
theorem readLine_other {text line : PyStr} (h : Accepted lower text) (hline : line ∈ textLines text)
    (hleads : ¬ SettingLeads lower line) (setting : PyStr) :
    readLine lower setting line = setting := by
  unfold readLine
  refine if_neg ?_
  rintro ⟨hequals, hkey⟩
  cases hparts : parts line with
  | nil => exact equalsSign_not_space ((parts_spec line).1 hparts _ hequals) rfl
  | cons part rest =>
    obtain ⟨blank, behind, hwhole, hblank, -, -⟩ := (parts_spec line).2.2 part rest hparts
    have hpart : equalsSign ∈ strip part :=
      h.equals part (List.mem_flatMap.mpr ⟨line, hline, by
        rw [hparts]; exact List.mem_cons_self ..⟩)
    have hsetting := setting_of_line lower hwhole hblank hpart
    exact hleads ⟨part, rest, hparts, hsetting.2.1.symm.trans hkey⟩

/-- A line that begins with it sets something else than `true`. -/
theorem readLine_leading {text line : PyStr} (h : Accepted lower text)
    (hline : line ∈ textLines text)
    (hleads : SettingLeads lower line) (setting : PyStr) :
    readLine lower setting line ≠ lit "true" := by
  obtain ⟨part, rest, hparts, hkey⟩ := hleads
  obtain ⟨blank, behind, hwhole, hblank, hend, hmore⟩ := (parts_spec line).2.2 part rest hparts
  have hmem : ∀ part' ∈ part :: rest, part' ∈ (textLines text).flatMap parts := fun part' hpart' =>
    List.mem_flatMap.mpr ⟨line, hline, by rw [hparts]; exact hpart'⟩
  obtain ⟨hequals, hsame, hvalue, hlonger⟩ :=
    setting_of_line lower hwhole hblank (h.equals part (hmem part (List.mem_cons_self ..)))
  unfold readLine
  rw [if_pos ⟨hequals, hsame.trans hkey⟩]
  cases rest with
  | nil =>
    rw [hvalue (hend rfl), h.excluded part (hmem part (List.mem_cons_self ..)) hkey]
    decide
  | cons part' rest =>
    -- the rest of the line has an equals sign, and `true` has none
    have hpart' := h.equals part' (hmem part' (List.mem_cons_of_mem _ (List.mem_cons_self ..)))
    obtain ⟨before, after, hstrip, -, -⟩ := strip_spec part'
    have hbehind : equalsSign ∈ behind := by
      refine hmore part' (List.mem_cons_self ..) _ ?_
      rw [hstrip]
      exact List.mem_append_left _ (List.mem_append_right _ hpart')
    have hlower := lower.keeps _ (hlonger ⟨_, hbehind, rfl⟩)
    intro htrue
    rw [htrue] at hlower
    exact absurd hlower (by decide)

/-- The setting is on exactly if no line sets it: without a line `venv` takes the system site. -/
theorem systemSiteSetting_eq_true {text : PyStr} (h : Accepted lower text) :
    systemSiteSetting lower text = lit "true" ↔ ∀ line ∈ textLines text,
    ¬ SettingLeads lower line := by
  have hfold : ∀ lines : List PyStr, (∀ line ∈ lines, line ∈ textLines text) → ∀ setting,
      lines.foldl (readLine lower) setting = lit "true"
        ↔ setting = lit "true" ∧ ∀ line ∈ lines, ¬ SettingLeads lower line := by
    intro lines hlines
    induction lines with
    | nil => simp
    | cons line lines ih =>
      intro setting
      have hline := hlines line (List.mem_cons_self ..)
      rw [List.foldl_cons, ih fun l hl => hlines l (List.mem_cons_of_mem _ hl),
        List.forall_mem_cons]
      by_cases hleads : SettingLeads lower line
      · have hvalue := readLine_leading h hline hleads setting
        constructor
        · intro hall
          exact absurd hall.1 hvalue
        · intro hall
          exact absurd hleads hall.2.1
      · rw [readLine_other h hline hleads setting]
        constructor
        · intro hall
          exact ⟨hall.1, hleads, hall.2⟩
        · intro hall
          exact ⟨hall.1, hall.2.2⟩
  unfold systemSiteSetting
  rw [hfold _ fun _ hline => hline]
  exact and_iff_right rfl

/-- Of a file that was accepted, CPython excludes the system site packages exactly if the setting is
the first part of some line. -/
theorem isolation_agrees_iff {raw : Bytes} (h : requireIsolatedVenvConfig lower raw = .ok ()) :
    (∃ text, utf8Decode raw = some text ∧ includesSystemSites lower text = false)
      ↔ ∃ text, utf8Decode raw = some text ∧ ∃ line ∈ textLines text, SettingLeads lower line := by
  obtain ⟨text, hdecode, haccepted⟩ := accepted_of_ok lower h
  have hsetting := systemSiteSetting_eq_true haccepted
  have hincludes : includesSystemSites lower text = false ↔
    ¬ systemSiteSetting lower text = lit "true" :=
    beq_eq_false_iff_ne
  constructor
  · rintro ⟨text', hdecode', hexcluded⟩
    obtain rfl := Option.some.inj (hdecode.symm.trans hdecode')
    rw [hincludes, hsetting] at hexcluded
    simp only [not_forall, not_not] at hexcluded
    obtain ⟨line, hline, hleads⟩ := hexcluded
    exact ⟨text, hdecode, line, hline, hleads⟩
  · rintro ⟨text', hdecode', line, hline, hleads⟩
    obtain rfl := Option.some.inj (hdecode.symm.trans hdecode')
    refine ⟨text, hdecode, ?_⟩
    rw [hincludes, hsetting]
    exact fun hall => hall line hline hleads

/-! ## Files -/

/-- Lower case of ASCII. -/
def asciiLower : Lower where
  map s := s.map fun c => if 0x41 ≤ c.val ∧ c.val ≤ 0x5A then cp (c.val + 0x20) else c
  keeps s h := List.mem_map.mpr ⟨cp 0x3D, h, by decide⟩

/-- A text as a file. -/
def asFile (text : PyStr) : Bytes := text.map fun c => byte c.val

theorem utf8Decode_asFile {text : PyStr} (h : isAscii text = true) :
    utf8Decode (asFile text) = some text :=
  utf8Decode_utf8Encode (utf8Encode_ascii h)

/-- What is left to check of a file once it is read. -/
theorem requireIsolatedVenvConfig_asFile {text : PyStr} (h : isAscii text = true)
    {entries : List (PyStr × PyStr)}
    (hread : readSettings lower (splitLines text) [] = .ok entries)
    (hlookup : entries.lookup includeSystemSites = some (lit "false")) :
    requireIsolatedVenvConfig lower (asFile text) = .ok () := by
  unfold requireIsolatedVenvConfig
  rw [utf8Decode_asFile h]
  dsimp only
  rw [hread]
  exact if_neg (not_not.mpr hlookup)

/-- A configuration as `venv` writes it. -/
def plainConfig : PyStr :=
  lit "home = /usr/bin\ninclude-system-site-packages = false\nversion = 3.11.4\n"

/-- The setting behind a vertical tab. -/
def splitConfig : PyStr := lit "home=/\x0binclude-system-site-packages=false"

/-- It is accepted, and CPython reads it alike. -/
theorem isolation_agrees_plain :
    ((∃ text, utf8Decode (asFile plainConfig) = some text
      ∧ includesSystemSites asciiLower text = false)
      ↔ ∃ text, utf8Decode (asFile plainConfig) = some text
        ∧ ∃ line ∈ textLines text, SettingLeads asciiLower line)
      ∧ includesSystemSites asciiLower plainConfig = false := by
  have hlines : splitLines plainConfig
      = [lit "home = /usr/bin", lit "include-system-site-packages = false",
        lit "version = 3.11.4"] := by decide
  have hread : readSettings asciiLower (splitLines plainConfig) []
      = .ok [(lit "home", lit "/usr/bin"), (includeSystemSites, lit "false"),
        (lit "version", lit "3.11.4")] := by
    rw [hlines]
    rfl
  exact ⟨isolation_agrees_iff (requireIsolatedVenvConfig_asFile (by decide) hread (by decide)), by
    decide⟩

/-- Accepted, and CPython includes the system site packages. -/
theorem split_config_accepted :
    requireIsolatedVenvConfig asciiLower (asFile splitConfig) = .ok ()
      ∧ utf8Decode (asFile splitConfig) = some splitConfig
        ∧ includesSystemSites asciiLower splitConfig = true := by
  have hlines : splitLines splitConfig
    = [lit "home=/", lit "include-system-site-packages=false"] := by decide
  have hread : readSettings asciiLower (splitLines splitConfig) []
      = .ok [(lit "home", lit "/"), (includeSystemSites, lit "false")] := by
    rw [hlines]
    rfl
  exact ⟨requireIsolatedVenvConfig_asFile (by decide) hread (by decide),
    utf8Decode_asFile (by decide), by decide⟩

end SddGov.Owner
