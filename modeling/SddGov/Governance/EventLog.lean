import SddGov.Governance.Isoformat
import SddGov.Python.JsonBreaks
import SddGov.Python.LineParts

/-!
# The event log

`emit_event` down to the bytes of `events.jsonl`, and the lines `project_status`
counts. The writer ends a record with a line feed and leaves every character above
ASCII as it is; the reader breaks lines at three of these as well. A record without
them is one line and reads back; a record with one of them begins with a brace,
ends with a brace and has a break between, and counts at least twice. So the count
is that of the calls just where no call brings a separator (`event_log_iff`).
-/

namespace SddGov.Governance

open SddGov.Python

/-! ## The calls -/

/-- The arguments of a call of `emit_event` and what its clock shows. A payload is a `dict`. -/
structure Emission where
  eventType : PyStr
  risk : PyStr
  payload : Option Members
  now : Instant
  unique : uniqueNames (.obj (payload.getD [])) = true

/-- The event, with `payload or {}`. -/
def Emission.event (e : Emission) : Json := eventRecord e.eventType e.risk e.now
    (.obj (e.payload.getD []))

/-- `json.dumps(event, ensure_ascii=False)`. Which of two errors is raised first is left open. -/
def eventText (limit : Nat) (event : Json) : Except Exn PyStr :=
  if limit < depth event then .error .recursion
  else
    match dumpsSpaced event with
    | none => .error (.ofJson .digits)
    | some text => .ok text

/-- The bytes a call appends to the log. -/
def Emission.record (limit : Nat) (e : Emission) : Except Exn Bytes :=
  if ¬(["L0", "L1", "L2", "L3"].map lit).contains e.risk then
    .error (valueError "risk must be L0, L1, L2, or L3")
  else do
    let text ← eventText limit e.event
    match utf8Encode (text ++ [lf]) with
    | none => .error (valueError "UnicodeEncodeError")
    | some bytes => .ok bytes

/-- `emit_event`, from the log to the returned event and the new log. -/
def emitToLog (limit : Nat) (log : Bytes) (e : Emission) : Except Exn (Json × Bytes) := do
  let bytes ← e.record limit
  .ok (e.event, log ++ bytes)

/-- The calls one after the other: the events that were returned, and the log. A call that raises
leaves the log as it is. -/
def emitAll (limit : Nat) (log : Bytes) : List Emission → List Json × Bytes
  | [] => ([], log)
  | e :: rest =>
    match emitToLog limit log e with
    | .ok (event, log) => ((event :: (emitAll limit log rest).1), (emitAll limit log rest).2)
    | .error _ => emitAll limit log rest

/-- The lines of `events.jsonl` that `project_status` counts. -/
def countedLines (log : Bytes) : Except Exn (List PyStr) :=
  match utf8Decode log with
  | none => .error (valueError "UnicodeDecodeError")
  | some text => .ok ((splitLines (universalNewlines text)).filter fun line => !isBlank line)

/-- The lines are as many as the events, and each of them decodes to its event. -/
structure Agrees (limit : Nat) (events : List Json) (lines : List PyStr) : Prop where
  count : lines.length = events.length
  decode : List.Forall₂ (fun line event => loads limit line = .ok event) lines events

/-- Neither the event type nor a name or a string of the payload holds a separator. -/
def Emission.IsPlain (e : Emission) : Prop :=
  e.eventType.any isSeparator = false ∧ holdsSeparator (.obj (e.payload.getD [])) = false

/-! ## The event -/

theorem any_isSeparator_plain {s : PyStr} (h : Plain s) : s.any isSeparator = false := by
  refine List.any_eq_false.mpr fun c hc => ?_
  have hplain := h c hc
  simp only [isSeparator, Bool.or_eq_true, beq_iff_eq]
  omega

/-- Of an event, the caller chooses the type and the payload. -/
theorem holdsSeparator_event {limit : Nat} {e : Emission} {bytes : Bytes}
    (h : e.record limit = .ok bytes) :
    holdsSeparator e.event = false ↔ e.IsPlain := by
  have hrisk : Plain e.risk := by
    unfold Emission.record at h
    split at h
    · cases h
    · next hmem =>
      rw [not_not, List.contains_iff_mem] at hmem
      obtain ⟨level, hlevel, hname⟩ := List.mem_map.mp hmem
      rw [← hname]
      have hall : ∀ level ∈ ["L0", "L1", "L2", "L3"],
        (lit level).all (fun c => 0x20 ≤ c.val && c.val < 0x80) = true := by
        decide
      exact plain_lit (hall level hlevel)
  have hname : ∀ name ∈ ["schema_version", "event_type", "risk_level", "at", "payload", "1.0"],
      (lit name).any isSeparator = false := by decide
  unfold Emission.event eventRecord Emission.IsPlain
  simp only [holdsSeparator, holdsSeparatorMembers, Bool.or_eq_false_iff,
    hname _ (by simp : "schema_version" ∈ _),
    hname "event_type" (by simp), hname "risk_level" (by simp), hname "at" (by simp),
      hname "payload" (by simp),
    hname "1.0" (by simp), any_isSeparator_plain hrisk, any_isSeparator_plain (plain_stamp e.now),
      true_and, and_true]

theorem uniqueNames_event (e : Emission) : uniqueNames e.event = true := by
  have hpayload := e.unique
  unfold Emission.event eventRecord
  simp only [uniqueNames, uniqueNamesMembers, keys, List.map_cons, List.map_nil] at hpayload ⊢
  rw [hpayload]
  decide

/-! ## The lines of the log -/

/-- The text of a line. -/
structure LineOf (limit : Nat) (e : Emission) (text : PyStr) : Prop where
  trimmed : Trimmed text
  noControl : NoControl text
  reads : loads limit text = .ok e.event
  breaks : text.any isLineBreak = false ↔ e.IsPlain

/-- What a call appends is a line and a line feed. -/
theorem lineOf_record {limit : Nat} {e : Emission} {bytes : Bytes}
    (h : e.record limit = .ok bytes) :
    ∃ text, LineOf limit e text ∧ utf8Encode (text ++ [lf]) = some bytes := by
  have hplain := holdsSeparator_event h
  unfold Emission.record at h
  split at h
  · cases h
  obtain ⟨text, htext, h⟩ := except_bind_ok.mp h
  unfold eventText at htext
  split at htext
  · cases htext
  next hdepth =>
  split at htext
  · cases htext
  next written hwritten =>
  obtain rfl := Except.ok.inj htext
  split at h
  · cases h
  next encoded hencoded =>
  obtain rfl := Except.ok.inj h
  have hbreaks := breaksIf_dumpsSpaced e.event hwritten
  refine ⟨written, ⟨?_, hbreaks.1, ?_, ?_⟩, hencoded⟩
  · unfold Emission.event eventRecord at hwritten
    rw [dumpsSpaced] at hwritten
    obtain ⟨ts, -, rfl⟩ := Option.map_eq_some_iff.mp hwritten
    exact ⟨⟨cp 0x7B, joinTexts comma (ts.map spacedMember) ++ lit "\x7d", rfl, by decide⟩,
      ⟨lit "\x7b" ++ joinTexts comma (ts.map spacedMember), cp 0x7D, rfl, by decide⟩⟩
  · exact loads_dumpsSpaced hwritten (uniqueNames_event e) (by omega)
  · rw [hbreaks.2]
    exact hplain

/-- The log holds the lines of these calls. -/
def Holds (limit : Nat) (log : Bytes) (calls : List Emission) : Prop :=
  ∃ texts, List.Forall₂ (LineOf limit) calls texts ∧ utf8Encode (terminated lf texts) = some log

/-- A call that returns adds its line. -/
theorem Holds.append {limit : Nat} {log bytes : Bytes} {calls : List Emission} {e : Emission}
    (h : Holds limit log calls) (hrecord : e.record limit = .ok bytes) :
    Holds limit (log ++ bytes) (calls ++ [e]) := by
  obtain ⟨texts, hlines, hlog⟩ := h
  obtain ⟨text, hline, hbytes⟩ := lineOf_record hrecord
  refine ⟨texts ++ [text], List.rel_append hlines (.cons hline .nil), ?_⟩
  have hterminated : terminated lf (texts ++ [text]) = terminated lf texts ++ (text ++ [lf]) := by
    simp [terminated]
  rw [hterminated, utf8Encode_append, hlog, hbytes]
  rfl

/-- Whether a call returns. -/
def Emission.isAccepted (limit : Nat) (e : Emission) : Bool := (e.record limit).isOk

/-- Every call that returns adds its line, in order, and the others nothing. -/
theorem holds_emitAll {limit : Nat} : ∀ {calls before : List Emission} {log : Bytes},
    Holds limit log before →
    (emitAll limit log calls).1 = (calls.filter (·.isAccepted limit)).map Emission.event
      ∧ Holds limit (emitAll limit log calls).2 (before ++ calls.filter (·.isAccepted limit))
  | [], before, log, h => ⟨rfl, by simpa [emitAll] using h⟩
  | e :: calls, before, log, h => by
    cases hrecord : e.record limit with
    | error err =>
      have haccepted : e.isAccepted limit = false := by
        rw [Emission.isAccepted, hrecord]
        rfl
      have hemit : emitToLog limit log e = .error err := by
        rw [emitToLog, hrecord]
        rfl
      rw [emitAll, hemit, List.filter_cons, haccepted]
      exact holds_emitAll h
    | ok bytes =>
      have haccepted : e.isAccepted limit = true := by
        rw [Emission.isAccepted, hrecord]
        rfl
      have hemit : emitToLog limit log e = .ok (e.event, log ++ bytes) := by
        rw [emitToLog, hrecord]
        rfl
      obtain ⟨hevents, hholds⟩ := @holds_emitAll limit calls (before ++ [e]) (log ++ bytes)
        (h.append hrecord)
      rw [emitAll, hemit, List.filter_cons, haccepted]
      refine ⟨congrArg (e.event :: ·) hevents, ?_⟩
      rw [List.append_assoc] at hholds
      exact hholds

/-- The counted lines are the parts of the lines. -/
theorem countedLines_holds {texts : List PyStr} {log : Bytes} (h : ∀ text ∈ texts, NoControl text)
    (hlog : utf8Encode (terminated lf texts) = some log) :
    countedLines log = .ok (texts.flatMap parts) := by
  have hreturn : NoReturn (terminated lf texts) := by
    intro c hc
    rcases mem_terminated hc with rfl | ⟨text, htext, hc⟩
    · decide
    · have hcontrol := h text htext c hc
      omega
  have hfeed : ∀ text ∈ texts, lf ∉ text := fun text htext hmem =>
    absurd (h text htext lf hmem) (by decide)
  have hlines : textLines (terminated lf texts) = texts ++ [[]] := by
    rw [textLines, universalNewlines_eq_self hreturn]
    exact splitAt_terminated hfeed
  unfold countedLines
  rw [utf8Decode_utf8Encode hlog]
  dsimp only
  rw [universalNewlines_eq_self hreturn, splitLines_parts, hlines, List.flatMap_append]
  exact congrArg Except.ok (List.append_nil _)

/-- A line is that of a call. -/
theorem exists_call {limit : Nat} {calls : List Emission} {texts : List PyStr}
    (h : List.Forall₂ (LineOf limit) calls texts) :
    ∀ text ∈ texts, ∃ e ∈ calls, LineOf limit e text := by
  induction h with
  | nil => simp
  | @cons e text calls texts hline _ ih =>
    refine List.forall_mem_cons.mpr ⟨⟨e, List.mem_cons_self .., hline⟩, fun t ht => ?_⟩
    obtain ⟨e', he', hline'⟩ := ih t ht
    exact ⟨e', List.mem_cons_of_mem _ he', hline'⟩

/-- The log after the calls, line by line. -/
theorem emitAll_lines (limit : Nat) (calls : List Emission) :
    ∃ texts, List.Forall₂ (LineOf limit) (calls.filter (·.isAccepted limit)) texts
      ∧ (emitAll limit [] calls).1 = (calls.filter (·.isAccepted limit)).map Emission.event
      ∧ countedLines (emitAll limit [] calls).2 = .ok (texts.flatMap parts) := by
  have hempty : Holds limit [] [] := ⟨[], .nil, rfl⟩
  obtain ⟨hevents, texts, htexts, hlog⟩ := @holds_emitAll limit calls [] [] hempty
  rw [List.nil_append] at htexts
  refine ⟨texts, htexts, hevents, countedLines_holds (fun text htext => ?_) hlog⟩
  obtain ⟨e, -, hline⟩ := exists_call htexts text htext
  exact hline.noControl

/-- There are as many counted lines as calls just where every call is plain. -/
theorem length_countedLines {limit : Nat} {calls : List Emission} {texts : List PyStr}
    (h : List.Forall₂ (LineOf limit) calls texts) :
    (texts.flatMap parts).length = calls.length ↔ ∀ e ∈ calls, e.IsPlain := by
  have htrimmed : ∀ text ∈ texts, Trimmed text := by
    intro text htext
    obtain ⟨e, -, hline⟩ := exists_call h text htext
    exact hline.trimmed
  have hplain : (∀ text ∈ texts, text.any isLineBreak = false) ↔ ∀ e ∈ calls, e.IsPlain := by
    clear htrimmed
    induction h with
    | nil => simp
    | cons hline _ ih => rw [List.forall_mem_cons, List.forall_mem_cons, ih, hline.breaks]
  rw [h.length_eq, (length_parts htrimmed).2, hplain]

/-- Plain calls are counted as they are written. -/
theorem countedLines_plain {limit : Nat} {calls : List Emission} {texts : List PyStr}
    (h : List.Forall₂ (LineOf limit) calls texts) (hplain : ∀ e ∈ calls, e.IsPlain) :
    texts.flatMap parts = texts := by
  induction h with
  | nil => rfl
  | cons hline _ ih =>
    rw [List.forall_mem_cons] at hplain
    rw [List.flatMap_cons, parts_unbroken hline.trimmed (hline.breaks.mpr hplain.1), ih hplain.2]
    rfl

/-- The count of the lines is the number of calls that returned, and each line decodes to its event,
just where no call that returned brought a separator. -/
theorem event_log_iff (limit : Nat) (calls : List Emission) :
    ∃ lines, countedLines (emitAll limit [] calls).2 = .ok lines
    ∧ (Agrees limit (emitAll limit [] calls).1 lines ↔
      ∀ e ∈ calls, e.isAccepted limit = true → e.IsPlain) := by
  obtain ⟨texts, htexts, hevents, hlines⟩ := emitAll_lines limit calls
  have hcount := length_countedLines htexts
  simp only [List.mem_filter, and_imp] at hcount
  refine ⟨texts.flatMap parts, hlines, ?_⟩
  rw [hevents]
  constructor
  · intro hagrees
    apply hcount.mp
    rw [hagrees.count, List.length_map]
  · intro hplain
    refine ⟨by rw [hcount.mpr hplain, List.length_map], ?_⟩
    have hreturned : ∀ e ∈ calls.filter (·.isAccepted limit), e.IsPlain := by
      simpa only [List.mem_filter, and_imp] using hplain
    rw [countedLines_plain htexts hreturned, List.forall₂_map_right_iff]
    exact htexts.flip.imp fun _ _ hline => hline.reads

/-- A note with a line separator. -/
def separatedNote : Emission where
  eventType := lit "note"
  risk := lit "L0"
  payload := some [(lit "note", .str [cp 0x61, cp 0x2028, cp 0x62])]
  now := ⟨63000000000000000, sampleMicros_lt⟩
  unique := by decide

set_option maxRecDepth 4000 in
theorem separatedNote_accepted : separatedNote.isAccepted recursionLimit = true := by decide

/-- The one note is not counted as one line. -/
theorem separated_note_miscounted :
    ∃ lines, countedLines (emitAll recursionLimit [] [separatedNote]).2 = .ok lines
      ∧ ¬ Agrees recursionLimit (emitAll recursionLimit [] [separatedNote]).1 lines := by
  obtain ⟨texts, htexts, hevents, hlines⟩ := emitAll_lines recursionLimit [separatedNote]
  refine ⟨texts.flatMap parts, hlines, fun hagrees => ?_⟩
  have hcount := hagrees.count
  rw [hevents, List.length_map, length_countedLines htexts] at hcount
  have hplain := hcount separatedNote
    (List.mem_filter.mpr ⟨List.mem_singleton_self _, separatedNote_accepted⟩)
  exact absurd hplain.2 (by decide)

end SddGov.Governance
