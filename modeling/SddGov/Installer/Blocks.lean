import SddGov.Python.Exn
import SddGov.Python.Search
import SddGov.Python.Strip

/-!
# The managed block of a text file

`AGENTS.md` and `.gitignore` belong to the project; the installer keeps one
block between two markers in each of them. A block that is inserted is found
again (`extract_inserted`) and inserting it once more changes nothing
(`upsert_inserted`). Removing it strips what is left, as one text and not line
by line: the whitespace before the first line that is not blank and after the
last one goes as well (`nonBlankLines_strip`), so the text comes back exactly
where there was none (`uninstall_gives_back_iff`).
-/

namespace SddGov.Installer

open SddGov.Python

/-! ## The functions -/

/-- The markers of a block and the name of the file in the errors. -/
structure Markers where
  start : PyStr
  stop : PyStr
  label : PyStr

/-- `START_MARKER` and `END_MARKER`. -/
def agentsMarkers : Markers where
  start := lit "<!-- agentic-sdd-governance:start -->"
  stop := lit "<!-- agentic-sdd-governance:end -->"
  label := lit "AGENTS.md"

/-- `GITIGNORE_START_MARKER` and `GITIGNORE_END_MARKER`. -/
def gitignoreMarkers : Markers where
  start := lit "# agentic-sdd-governance:start"
  stop := lit "# agentic-sdd-governance:end"
  label := lit ".gitignore"

/-- The lines of `GITIGNORE_BLOCK` between the markers. -/
def gitignoreLines : List PyStr :=
  ["# Raw Debug Evidence Packages stay local.", "evidence/**/private/raw/",
    "# Runtime locks are local coordination state.", ".sddgov/*.lock",
    "# Merge Gate, independent review receipts, and trusted approver public keys are auditable project policy.",
    "# Owner private signing keys must never enter the repository.", "*.ed25519.key",
      ".sddgov/keys/"].map lit

/-- A body between the markers, each on a line of its own. -/
def marked (m : Markers) (body : PyStr) : PyStr := m.start ++ lf :: (body ++ lf :: m.stop)

/-- `GITIGNORE_BLOCK`. -/
def gitignoreBlock : PyStr := marked gitignoreMarkers (joinTexts [lf] gitignoreLines)

/-- `_adapter_block`, for the text of the packaged adapter. -/
def adapterBlock (adapter : PyStr) : PyStr := marked agentsMarkers (strip adapter)

/-- `_extract_marked_block`. -/
def extractMarkedBlock (m : Markers) (text : PyStr) : Except Exn (Option PyStr) :=
  match findText m.start text, findText m.stop text with
  | none, none => .ok none
  | some start, some stop =>
    if stop < start then
      .error (.value (m.label ++ lit " contains a malformed Agentic SDD Governance block"))
    else if (findText m.start (text.drop (start + 1))).isSome
      || (findText m.stop (text.drop (stop + 1))).isSome then
      .error (.value (m.label ++ lit " contains duplicate Agentic SDD Governance blocks"))
    else .ok (some ((text.drop start).take (stop + m.stop.length - start)))
  | _, _ => .error (.value (m.label ++ lit " contains a malformed Agentic SDD Governance block"))

/-- The text that `_upsert_block` and `_upsert_gitignore` write; `file` is `none` where there is
none. -/
def upsertMarkedBlock (m : Markers) (file : Option PyStr) (block : PyStr) : Except Exn PyStr := do
  let existing := universalNewlines (file.getD [])
  let current ← extractMarkedBlock m existing
  pure (match current with
    | none =>
      if isBlank existing then block ++ [lf]
      else rstrip existing ++ [lf, lf] ++ block ++ [lf]
    | some current =>
      let updated := replaceText current block existing
      if updated.getLast? = some lf then updated else updated ++ [lf])

/-- What `_remove_block` and `_remove_gitignore_block` answer, and the file they leave. -/
def removeMarkedBlock (m : Markers) : Option PyStr → Except Exn (Bool × Option PyStr)
  | none => .ok (false, none)
  | some file => do
    let existing := universalNewlines file
    let current ← extractMarkedBlock m existing
    match current with
    | none => .ok (false, some file)
    | some block =>
      match splitOnce block existing with
      | none => .error (valueError "not enough values to unpack (expected 2, got 1)")
      | some (before, after) =>
        if !isBlank before && !isBlank after then
          .ok (true, some (rstrip before ++ [lf, lf] ++ after.dropWhile isSpace))
        else
          let updated := strip (before ++ after)
          .ok (true, if updated.isEmpty then none else some (updated ++ [lf]))

/-- `_extract_block`. -/
def extractBlock : PyStr → Except Exn (Option PyStr) := extractMarkedBlock agentsMarkers

/-- `_extract_gitignore_block`. -/
def extractGitignoreBlock : PyStr → Except Exn (Option PyStr) := extractMarkedBlock gitignoreMarkers

/-- `_upsert_block`. -/
def upsertBlock : Option PyStr → PyStr → Except Exn PyStr := upsertMarkedBlock agentsMarkers

/-- `_upsert_gitignore`. -/
def upsertGitignore (file : Option PyStr) : Except Exn PyStr :=
    upsertMarkedBlock gitignoreMarkers file gitignoreBlock

/-- `_remove_block`. -/
def removeBlock : Option PyStr → Except Exn (Bool × Option PyStr) := removeMarkedBlock agentsMarkers

/-- `_remove_gitignore_block`. -/
def removeGitignoreBlock : Option PyStr → Except Exn (Bool × Option PyStr) :=
    removeMarkedBlock gitignoreMarkers

/-! ## Files, blocks and texts -/

/-- The files with a managed block. -/
inductive ManagedFile
  | agents
  | gitignore

def ManagedFile.markers : ManagedFile → Markers
  | .agents => agentsMarkers
  | .gitignore => gitignoreMarkers

/-- A text with LF line ends and without markers. -/
structure PlainText (m : Markers) where
  text : PyStr
  noReturn : NoReturn text
  noStart : ¬ m.start <:+: text
  noStop : ¬ m.stop <:+: text

/-- What is used of the markers. -/
structure Markers.Distinct (m : Markers) : Prop where
  start : ∀ c ∈ m.start, c ≠ lf ∧ c.val ≠ 0x0D
  stop : ∀ c ∈ m.stop, c ≠ lf ∧ c.val ≠ 0x0D
  startNotInStop : ¬ m.start <:+: m.stop
  stopNotInStart : ¬ m.stop <:+: m.start

theorem one_line {word : PyStr} (h : word.all (fun c => c != lf && c.val != 0x0D) = true) :
    ∀ c ∈ word, c ≠ lf ∧ c.val ≠ 0x0D := by
  intro c hc
  have hall := List.all_eq_true.mp h c hc
  simpa using hall

theorem ManagedFile.distinct (file : ManagedFile) : file.markers.Distinct := by
  cases file with
  | agents =>
    exact ⟨one_line (by decide), one_line (by decide), not_infix_of_findText (by decide),
      not_infix_of_findText (by decide)⟩
  | gitignore =>
    exact ⟨one_line (by decide), one_line (by decide), not_infix_of_findText (by decide),
      not_infix_of_findText (by decide)⟩

/-! ## The inserted block -/

/-- A marker is in no shorter text, and so not in what follows its first character. -/
theorem not_infix_tail {c : CodePoint} {word : PyStr} : ¬ c :: word <:+: word := by
  intro h
  have hlength := h.length_le
  simp at hlength

section Inserted

variable {m : Markers} (hm : m.Distinct) (user body : PlainText m)

/-- What stands before the block: the text without the whitespace at its end, and a blank line. -/
def front (text : PyStr) : PyStr := if isBlank text then [] else rstrip text ++ [lf, lf]

/-- The file with the block. -/
def inserted (m : Markers) (text body : PyStr) : PyStr := front text ++ (marked m body ++ [lf])

/-- A word that is not in the text and has no line end is looked for behind it. -/
theorem findText_behind {word text : PyStr} (hlf : lf ∉ word) (h : ¬ word <:+: text)
    (rest : PyStr) :
    findText word (front text ++ rest) = (findText word rest).map (· + (front text).length) := by
  unfold front
  split
  · simp
  · have hcut : ¬ word <:+: rstrip text := fun hs => h (hs.trans (rstrip_front text).isInfix)
    have hnone : ¬ word <:+: ([] : PyStr) := fun hs => h (hs.trans (List.nil_infix))
    -- two lines stand before the rest: the text and an empty one
    have hlines : rstrip text ++ [lf, lf] ++ rest = rstrip text
      ++ lf :: ([] ++ lf :: rest) := by simp
    rw [hlines, findText_line hlf hcut, findText_line hlf hnone, Option.map_map, List.length_append]
    congr 1
    funext i
    simp only [Function.comp, List.length_cons, List.length_nil]
    omega

include hm

theorem Markers.Distinct.lf_start : lf ∉ m.start := fun h => (hm.start lf h).1 rfl

theorem Markers.Distinct.lf_stop : lf ∉ m.stop := fun h => (hm.stop lf h).1 rfl

theorem Markers.Distinct.start_ne : m.start ≠ [] := fun h => hm.startNotInStop (h ▸ List.nil_infix)

theorem Markers.Distinct.stop_ne : m.stop ≠ [] := fun h => hm.stopNotInStart (h ▸ List.nil_infix)

theorem find_start : findText m.start (inserted m user.text body.text)
    = some (front user.text).length := by
  unfold inserted marked
  rw [findText_behind hm.lf_start user.noStart, List.append_assoc, findText_self, Option.map_some,
    Nat.zero_add]

theorem find_stop : findText m.stop (inserted m user.text body.text)
    = some ((front user.text).length + (m.start.length + 1 + (body.text.length + 1))) := by
  have hlines : marked m body.text ++ [lf] = m.start
    ++ lf :: (body.text ++ lf :: (m.stop ++ [lf])) := by
    simp [marked]
  unfold inserted
  rw [findText_behind hm.lf_stop user.noStop, hlines, findText_line hm.lf_stop hm.stopNotInStart,
    findText_line hm.lf_stop body.noStop, findText_self]
  simp only [Option.map_some, Option.some.injEq]
  omega

/-- Behind the first start marker there is no other. -/
theorem find_second_start : findText m.start
    ((inserted m user.text body.text).drop ((front user.text).length + 1)) = none := by
  obtain ⟨c, word, hword⟩ := List.exists_cons_of_ne_nil hm.start_ne
  have hrest : (inserted m user.text body.text).drop ((front user.text).length + 1)
      = word ++ lf :: (body.text ++ lf :: (m.stop ++ lf :: [])) := by
    have htext : inserted m user.text body.text
        = (front user.text ++ [c])
          ++ (word ++ lf :: (body.text ++ lf :: (m.stop ++ lf :: []))) := by
      simp [inserted, marked, hword]
    rw [htext, List.drop_left' (by simp)]
  -- the second search starts one character into the marker that was found
  have hself : ¬ m.start <:+: word := hword ▸ not_infix_tail
  have hnil : ¬ m.start <:+: ([] : PyStr) := fun h => hm.start_ne (List.infix_nil.mp h)
  rw [hrest, findText_line hm.lf_start hself, findText_line hm.lf_start body.noStart,
    findText_line hm.lf_start hm.startNotInStop, findText_eq_none hnil]
  rfl

/-- Behind the first stop marker there is no other. -/
theorem find_second_stop : findText m.stop ((inserted m user.text body.text).drop
    ((front user.text).length + (m.start.length + 1 + (body.text.length + 1)) + 1)) = none := by
  obtain ⟨c, word, hword⟩ := List.exists_cons_of_ne_nil hm.stop_ne
  have hrest : (inserted m user.text body.text).drop
      ((front user.text).length + (m.start.length + 1 + (body.text.length + 1)) + 1) = word
        ++ lf :: [] := by
    have htext : inserted m user.text body.text
        = (front user.text ++ (m.start ++ lf :: (body.text ++ lf :: [c])))
          ++ (word ++ lf :: []) := by
      simp [inserted, marked, hword]
    rw [htext, List.drop_left']
    simp only [List.length_append, List.length_cons, List.length_nil]
    omega
  have hself : ¬ m.stop <:+: word := hword ▸ not_infix_tail
  have hnil : ¬ m.stop <:+: ([] : PyStr) := fun h => hm.stop_ne (List.infix_nil.mp h)
  rw [hrest, findText_line hm.lf_stop hself, findText_eq_none hnil]
  rfl

/-- The block that was inserted is the block that is found. -/
theorem extract_inserted :
    extractMarkedBlock m (inserted m user.text body.text) = .ok (some (marked m body.text)) := by
  unfold extractMarkedBlock
  -- each marker is found once and in this order, so neither error is raised
  rw [find_start hm user body, find_stop hm user body]
  simp only
  rw [if_neg (by omega), find_second_start hm user body, find_second_stop hm user body]
  have hslice : ((inserted m user.text body.text).drop (front user.text).length).take
      ((front user.text).length + (m.start.length + 1 + (body.text.length + 1)) + m.stop.length
        - (front user.text).length)
      = marked m body.text := by
    have hlength : (front user.text).length + (m.start.length + 1 + (body.text.length + 1))
      + m.stop.length
        - (front user.text).length = (marked m body.text).length := by
      simp only [marked, List.length_append, List.length_cons]
      omega
    rw [inserted, List.drop_left, hlength, List.take_left]
  rw [hslice]
  rfl

/-- What is inserted has no carriage return of its own. -/
theorem noReturn_inserted : NoReturn (inserted m user.text body.text) := by
  intro c hc
  have hlf : lf.val ≠ 0x0D := by decide
  have hfront : ∀ c ∈ front user.text, c.val ≠ 0x0D := by
    intro c hc
    unfold front at hc
    split at hc
    · exact absurd hc (List.not_mem_nil)
    · rcases List.mem_append.mp hc with hc | hc
      · exact user.noReturn c ((rstrip_front _).subset hc)
      · rcases List.mem_cons.mp hc with rfl | hc
        · exact hlf
        · exact (List.mem_singleton.mp hc) ▸ hlf
  simp only [inserted, marked, List.mem_append, List.mem_cons, List.not_mem_nil, or_false] at hc
  rcases hc with hc | (hc | rfl | hc | rfl | hc) | rfl
  · exact hfront c hc
  · exact (hm.start c hc).2
  · exact hlf
  · exact body.noReturn c hc
  · exact hlf
  · exact (hm.stop c hc).2
  · exact hlf

end Inserted

/-! ## Whitespace at the ends -/

theorem isSpace_lf : isSpace lf = true := by decide

theorem spaces_lf : ∀ d ∈ [lf], isSpace d = true := fun _ hd =>
    List.mem_singleton.mp hd ▸ isSpace_lf

theorem rstrip_append {s w : PyStr} (hw : ∀ c ∈ w, isSpace c = true) :
    rstrip (s ++ w) = rstrip s := by
  unfold rstrip
  rw [List.reverse_append, List.dropWhile_append_of_pos (by simpa using hw)]

theorem strip_eq (s : PyStr) : strip s = rstrip (s.dropWhile isSpace) := rfl

theorem strip_append_spaces {s w : PyStr} (hw : ∀ c ∈ w, isSpace c = true) :
    strip (s ++ w) = strip s := by
  rw [strip_eq, strip_eq, List.dropWhile_append]
  split
  · next hnone =>
    rw [List.isEmpty_iff.mp hnone, List.dropWhile_eq_nil_iff.mpr hw]
  · exact rstrip_append hw

theorem strip_rstrip (s : PyStr) : strip (rstrip s) = strip s := by
  have hs : s = rstrip s ++ (s.reverse.takeWhile isSpace).reverse := by
    unfold rstrip
    rw [← List.reverse_append, List.takeWhile_append_dropWhile, List.reverse_reverse]
  have hend : ∀ c ∈ (s.reverse.takeWhile isSpace).reverse, isSpace c = true := by
    intro c hc
    exact List.mem_takeWhile_imp (List.mem_reverse.mp hc)
  conv_rhs => rw [hs]
  exact (strip_append_spaces hend).symm

/-! ## The lines of a text -/

/-- The lines that are not blank. -/
def nonBlankLines (text : PyStr) : List PyStr := (splitAt lf text).filter fun line => !isBlank line

theorem splitAt_cons (c : CodePoint) (s : PyStr) :
    splitAt lf (c :: s) = if c = lf then [] :: splitAt lf s else
    (splitAt lf s).modifyHead (c :: ·) := by
  unfold splitAt
  rw [List.splitOnP_cons_eq_if_modifyHead]
  simp

theorem lines_cons {c : CodePoint} (hc : c ≠ lf) (s : PyStr) :
    ∃ line rest, splitAt lf s = line :: rest ∧ splitAt lf (c :: s) = (c :: line) :: rest := by
  obtain ⟨line, rest, hlines⟩ := List.exists_cons_of_ne_nil (List.splitOnP_ne_nil (· == lf) s)
  refine ⟨line, rest, hlines, ?_⟩
  rw [splitAt_cons, if_neg hc, splitAt, hlines, List.modifyHead_cons]

/-- A character that ends no line goes to the last one. -/
theorem lines_concat {c : CodePoint} (hc : c ≠ lf) (s : PyStr) :
    ∃ init last, splitAt lf s = init ++ [last] ∧ splitAt lf (s ++ [c]) = init ++ [last ++ [c]] := by
  induction s with
  | nil => exact ⟨[], [], rfl, by rw [List.nil_append, splitAt_cons, if_neg hc]; rfl⟩
  | cons d s ih =>
    obtain ⟨init, last, hs, hsc⟩ := ih
    rw [List.cons_append, splitAt_cons, splitAt_cons, hs, hsc]
    split
    · exact ⟨[] :: init, last, rfl, rfl⟩
    · cases init with
      | nil => exact ⟨[], d :: last, rfl, rfl⟩
      | cons first init => exact ⟨(d :: first) :: init, last, rfl, rfl⟩

theorem nonBlankLines_lf (s : PyStr) : nonBlankLines (lf :: s) = nonBlankLines s := by
  unfold nonBlankLines
  rw [splitAt_cons, if_pos rfl, List.filter_cons_of_neg (by simp [isBlank])]

theorem nonBlankLines_concat_lf (s : PyStr) : nonBlankLines (s ++ [lf]) = nonBlankLines s := by
  unfold nonBlankLines splitAt
  rw [List.splitOnP_append_cons s [] (by simp), List.splitOnP_nil, List.filter_append,
    List.filter_cons_of_neg (by simp [isBlank]), List.filter_nil, List.append_nil]

/-- Whitespace cut off the front of a text is cut off its first line that is not blank. -/
theorem nonBlankLines_lstrip (s : PyStr) :
    nonBlankLines (s.dropWhile isSpace) = (nonBlankLines s).modifyHead (·.dropWhile isSpace) := by
  induction s with
  | nil => rfl
  | cons c s ih =>
    -- a line feed ends a blank line; any other character belongs to the first line
    by_cases hlf : c = lf
    · rw [hlf, List.dropWhile_cons_of_pos isSpace_lf, ih, nonBlankLines_lf]
    · obtain ⟨line, rest, hs, hcs⟩ := lines_cons hlf s
      cases hc : isSpace c with
      | true =>
        rw [List.dropWhile_cons_of_pos hc, ih]
        unfold nonBlankLines
        rw [hs, hcs]
        cases hline : isBlank line with
        | true =>
          have hmore : isBlank (c :: line) = true := by
            rw [isBlank] at hline ⊢
            rw [List.all_cons, hc, hline]
            rfl
          rw [List.filter_cons_of_neg (by simp [hline]), List.filter_cons_of_neg (by simp [hmore])]
        | false =>
          have hmore : isBlank (c :: line) = false := by
            rw [isBlank] at hline ⊢
            rw [List.all_cons, hc, hline]
            rfl
          rw [List.filter_cons_of_pos (by simp [hline]), List.filter_cons_of_pos (by simp [hmore]),
            List.modifyHead_cons, List.modifyHead_cons, List.dropWhile_cons_of_pos hc]
      | false =>
        have hfull : isBlank (c :: line) = false := by
          rw [isBlank, List.all_cons, hc]
          rfl
        have hneg : ¬ isSpace c = true := by simp [hc]
        rw [List.dropWhile_cons_of_neg hneg]
        unfold nonBlankLines
        rw [hcs, List.filter_cons_of_pos (by simp [hfull]), List.modifyHead_cons,
          List.dropWhile_cons_of_neg hneg]

/-- Whitespace cut off the end of a text is cut off its last line that is not blank. -/
theorem nonBlankLines_rstrip (s : PyStr) :
    (nonBlankLines (rstrip s)).reverse = (nonBlankLines s).reverse.modifyHead rstrip := by
  -- whitespace goes from the end, so the text is built by adding characters there
  induction s using List.reverseRecOn with
  | nil => rfl
  | append_singleton s c ih =>
    by_cases hlf : c = lf
    · rw [hlf, rstrip_append spaces_lf, ih, nonBlankLines_concat_lf]
    · obtain ⟨init, last, hs, hsc⟩ := lines_concat hlf s
      cases hc : isSpace c with
      | true =>
        have hspace : ∀ d ∈ [c], isSpace d = true := by simpa using hc
        rw [rstrip_append hspace, ih]
        unfold nonBlankLines
        rw [hs, hsc, List.filter_append, List.filter_append, List.reverse_append,
          List.reverse_append]
        -- whitespace at the end of the last line changes neither whether it is blank nor the line
        -- cut
        have hblank : isBlank (last ++ [c]) = isBlank last := by simp [isBlank, hc]
        cases hlast : isBlank last with
        | true =>
          rw [List.filter_cons_of_neg (by simp [hlast]),
            List.filter_cons_of_neg (by simp [hblank, hlast])]
        | false =>
          rw [List.filter_cons_of_pos (by simp [hlast]),
            List.filter_cons_of_pos (by simp [hblank, hlast])]
          simp [rstrip_append hspace]
      | false =>
        have hself : ∀ line : PyStr, rstrip (line ++ [c]) = line ++ [c] := by
          intro line
          simp [rstrip, hc]
        have hfull : isBlank (last ++ [c]) = false := by simp [isBlank, hc]
        rw [hself]
        unfold nonBlankLines
        rw [hsc, List.filter_append, List.filter_cons_of_pos (by simp [hfull]), List.reverse_append]
        simp [hself]

/-! ## Inserting and removing -/

/-- The first and the last line that is not blank have no whitespace at the ends of the text. -/
structure EndsPlain (text : PyStr) : Prop where
  first : ∀ line, (nonBlankLines text).head? = some line → line.dropWhile isSpace = line
  last : ∀ line, (nonBlankLines text).getLast? = some line → rstrip line = line

theorem modifyHead_eq_self {α : Type} {f : α → α} {l : List α} :
    l.modifyHead f = l ↔ ∀ a, l.head? = some a → f a = a := by
  cases l with
  | nil => simp
  | cons a l => simp

/-- Stripping a text keeps its lines that are not blank exactly where they are plain at its ends. -/
theorem nonBlankLines_strip_iff (text : PyStr) :
    nonBlankLines (strip text) = nonBlankLines text ↔ EndsPlain text := by
  have hlines : (nonBlankLines (strip text)).reverse
      = ((nonBlankLines text).modifyHead (·.dropWhile isSpace)).reverse.modifyHead rstrip := by
    rw [strip_eq, nonBlankLines_rstrip, nonBlankLines_lstrip]
  rw [← List.reverse_inj, hlines]
  have hends : EndsPlain text ↔ (∀ line, (nonBlankLines text).head? = some line →
    line.dropWhile isSpace = line)
      ∧ ∀ line, (nonBlankLines text).getLast? = some line → rstrip line = line :=
    ⟨fun h => ⟨h.first, h.last⟩, fun h => ⟨h.1, h.2⟩⟩
  rw [hends]
  generalize nonBlankLines text = lines
  constructor
  · intro h
    cases lines with
    | nil => simp
    | cons first rest =>
      cases hrest : rest.reverse with
      | nil =>
        -- one line, cut at both ends: it is as long as before only where nothing was cut
        obtain rfl := List.reverse_eq_nil_iff.mp hrest
        have hboth : rstrip (first.dropWhile isSpace) = first := by simpa using h
        have hlength := congrArg List.length hboth
        have hshort := (rstrip_front (first.dropWhile isSpace)).length_le
        have hsuffix : first.dropWhile isSpace <:+ first := List.dropWhile_suffix _
        have hfirst : first.dropWhile isSpace = first :=
          hsuffix.eq_of_length (le_antisymm hsuffix.length_le (hlength ▸ hshort))
        rw [hfirst] at hboth
        refine ⟨fun line hline => ?_, fun line hline => ?_⟩
        · obtain rfl := Option.some.inj hline
          exact hfirst
        · obtain rfl := Option.some.inj hline
          exact hboth
      | cons last others =>
        have hlast : (first :: rest).getLast? = some last := by
          rw [← List.head?_reverse, List.reverse_cons, hrest]
          rfl
        simp only [List.modifyHead_cons, List.reverse_cons, hrest, List.cons_append,
          List.cons.injEq,
          List.append_cancel_left_eq, and_true] at h
        refine ⟨fun line hline => ?_, fun line hline => ?_⟩
        · obtain rfl := Option.some.inj hline
          exact h.2
        · obtain rfl := Option.some.inj (hlast.symm.trans hline)
          exact h.1
  · rintro ⟨hfirst, hlast⟩
    rw [modifyHead_eq_self.mpr hfirst, modifyHead_eq_self.mpr (by simpa using hlast)]

section RoundTrip

variable {m : Markers} (hm : m.Distinct) (user body : PlainText m)

/-- A block is inserted behind the user's text. -/
theorem upsert_plain :
    upsertMarkedBlock m (some user.text) (marked m body.text)
    = .ok (inserted m user.text body.text) := by
  have hnone : extractMarkedBlock m user.text = .ok none := by
    unfold extractMarkedBlock
    rw [findText_eq_none user.noStart, findText_eq_none user.noStop]
  unfold upsertMarkedBlock
  dsimp only
  rw [Option.getD_some, universalNewlines_eq_self user.noReturn, hnone]
  unfold inserted front
  by_cases hblank : isBlank user.text = true
  · rw [if_pos hblank]
    simp [Bind.bind, Except.bind, pure, Except.pure, hblank]
  · rw [if_neg hblank]
    simp [Bind.bind, Except.bind, pure, Except.pure, hblank]

theorem marked_ne : marked m body.text ≠ [] := by
  unfold marked
  simp

include hm

/-- Inserting the block once more changes nothing. -/
theorem upsert_inserted :
    upsertMarkedBlock m (some (inserted m user.text body.text)) (marked m body.text)
      = .ok (inserted m user.text body.text) := by
  have hlast : (inserted m user.text body.text).getLast? = some lf := by
    unfold inserted
    rw [← List.append_assoc, List.getLast?_concat]
  unfold upsertMarkedBlock
  dsimp only
  rw [Option.getD_some, universalNewlines_eq_self (noReturn_inserted hm user body),
    extract_inserted hm user body]
  simp only [Bind.bind, Except.bind, pure, Except.pure, replaceText_self (marked_ne body),
    hlast, if_true]

/-- Where it was inserted, it splits the text into what stood before and the last newline. -/
theorem split_inserted :
    splitOnce (marked m body.text) (inserted m user.text body.text)
    = some (front user.text, [lf]) := by
  have hfound : findText (marked m body.text) (inserted m user.text body.text)
    = some (front user.text).length := by
    apply findText_front (find_start hm user body)
    · exact List.prefix_append _ _
    · rw [inserted, List.drop_left]
      exact List.prefix_append _ _
  unfold splitOnce
  rw [hfound, Option.map_some]
  have hafter : (inserted m user.text body.text).drop
    ((front user.text).length + (marked m body.text).length) = [lf] := by
    rw [inserted, ← List.append_assoc, List.drop_left' (by simp)]
  rw [hafter, inserted, List.take_left]

/-- The stripped text of the file, where there is any. -/
def strippedFile (text : PyStr) : Option PyStr :=
    if isBlank text then none else some (strip text ++ [lf])

omit hm in
theorem strip_front (text : PyStr) : strip (front text ++ [lf]) = if isBlank text then [] else
    strip text := by
  unfold front
  split
  · rfl
  · have hspaces : ∀ d ∈ [lf, lf, lf], isSpace d = true := by
      intro d hd
      simp only [List.mem_cons, List.not_mem_nil, or_false, or_self] at hd
      exact hd ▸ isSpace_lf
    have htext : rstrip text ++ [lf, lf] ++ [lf] = rstrip text ++ [lf, lf, lf] := by simp
    rw [htext, strip_append_spaces hspaces, strip_rstrip]

/-- Removing the block strips the text. -/
theorem remove_inserted :
    removeMarkedBlock m (some (inserted m user.text body.text))
    = .ok (true, strippedFile user.text) := by
  -- only a line feed follows the block, so the branch that strips the whole text is taken
  have hafter : isBlank [lf] = true := by decide
  rw [removeMarkedBlock, universalNewlines_eq_self (noReturn_inserted hm user body),
    extract_inserted hm user body]
  simp only [Bind.bind, Except.bind]
  rw [split_inserted hm user body]
  simp only [hafter, Bool.not_true, Bool.and_false, Bool.false_eq_true, if_false, strip_front]
  unfold strippedFile
  by_cases hblank : isBlank user.text = true
  · simp [hblank]
  · have hne : (strip user.text).isEmpty = false := by
      rw [← isBlank_eq_strip_isEmpty]
      simpa using hblank
    simp only [hblank, Bool.false_eq_true, if_false, hne]

end RoundTrip

/-- The lines of a stripped file. -/
theorem nonBlankLines_strippedFile (text : PyStr) :
    nonBlankLines ((strippedFile text).getD []) = nonBlankLines (strip text) := by
  unfold strippedFile
  split
  · next hblank =>
    have hnil : strip text = [] := by
      rw [isBlank_eq_strip_isEmpty] at hblank
      exact List.isEmpty_iff.mp hblank
    rw [hnil]
    rfl
  · exact nonBlankLines_concat_lf _

/-- Inserting the block and removing it again: the block is found, inserting it twice is inserting
it once, and the text comes back line by line. -/
structure GivesBack (m : Markers) (user body : PlainText m) (insertedText : PyStr)
    (left : Option PyStr) : Prop where
  inserted : upsertMarkedBlock m (some user.text) (marked m body.text) = .ok insertedText
  again : upsertMarkedBlock m (some insertedText) (marked m body.text) = .ok insertedText
  found : extractMarkedBlock m insertedText = .ok (some (marked m body.text))
  removed : removeMarkedBlock m (some insertedText) = .ok (true, left)
  lines : nonBlankLines (left.getD []) = nonBlankLines user.text

theorem GivesBack.endsPlain {m : Markers} (hm : m.Distinct) {user body : PlainText m}
    {insertedText : PyStr}
    {left : Option PyStr} (h : GivesBack m user body insertedText left) : EndsPlain user.text := by
  obtain rfl := Except.ok.inj ((upsert_plain user body).symm.trans h.inserted)
  have hremoved := Except.ok.inj ((remove_inserted hm user body).symm.trans h.removed)
  rw [← nonBlankLines_strip_iff, ← nonBlankLines_strippedFile, (Prod.mk.inj hremoved).2]
  exact h.lines

/-- A text comes back from an installation exactly where its first line that is not blank is not
indented and its last one does not end with whitespace. -/
theorem uninstall_gives_back_iff (file : ManagedFile) (user body : PlainText file.markers) :
    (∃ insertedText left, GivesBack file.markers user body insertedText left) ↔
    EndsPlain user.text := by
  have hm := file.distinct
  constructor
  · rintro ⟨_, _, h⟩
    exact h.endsPlain hm
  · intro h
    rw [← nonBlankLines_strip_iff, ← nonBlankLines_strippedFile] at h
    exact ⟨_, _, upsert_plain user body, upsert_inserted hm user body,
      extract_inserted hm user body,
      remove_inserted hm user body, h⟩

/-- An indented first line. -/
def indentedText : PlainText agentsMarkers where
  text := lit "    make test\nRun the tests.\n"
  noReturn := fun c hc => by
    have hall := List.all_eq_true.mp
      (by decide : (lit "    make test\nRun the tests.\n").all (fun c => c.val != 0x0D) = true) c hc
    simpa using hall
  noStart := not_infix_of_findText (by decide)
  noStop := not_infix_of_findText (by decide)

theorem indentation_lost : ¬ ∀ (file : ManagedFile) (user body : PlainText file.markers),
    ∃ insertedText left, GivesBack file.markers user body insertedText left := by
  intro h
  obtain ⟨_, _, hgives⟩ := h .agents indentedText indentedText
  have hends := hgives.endsPlain (ManagedFile.distinct .agents)
  exact absurd (hends.first (lit "    make test") (by decide)) (by decide)

end SddGov.Installer
