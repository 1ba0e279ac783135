import SddGov.Python.Crypto
import SddGov.Python.IncrementalUtf8
import SddGov.Redaction.Redactor

/-!
# Streaming a text

`_stream_text_at` reads a source in chunks, decodes them as they come, and gives
the redactor one line after the other. Where the chunks end makes no difference
(`stream_independent`): every run gives what `streamRest` gives for all of the
bytes at once. What a chunk leaves behind is the beginning of a character and
the beginning of a line, and the check of the beginning of a line rejects
nothing that the check of the complete line accepts (`drainLines_append`).

What is tested before the first byte is read is left out: it does not depend on
the source.
-/

namespace SddGov.Redaction

open SddGov.Python

def maxRedactionFileBytes : Nat := 10 * 1024 * 1024

def maxLogicalLineCharacters : Nat := 1024 * 1024

/-- The directory the output goes to. What becomes of one more piece is decided by the pieces that
were written before, and what becomes of the publication by all of them. -/
structure Destination where
  write : List Bytes → Bytes → Except Exn Unit
  publish : List Bytes → Except Exn Unit

/-- What is published, and what `_stream_text_at` returns about it. -/
structure Streamed where
  bytes : Bytes
  sourceDigest : PyStr
  sourceSize : Nat
  outputDigest : PyStr
  outputSize : Nat
  counts : Counts

/-! ## Lines -/

/-- What the lines have been made into: the redactor, the pieces written, what the digest of the
output was given and its size. -/
structure Output where
  redactor : Redactor
  pieces : List Bytes
  bytes : Bytes
  size : Nat

/-- `publish_text`. -/
def publishText (D : Destination) (out : Output) (value : PyStr) : Except Exn Output :=
  match utf8Encode value with
  | none => .error (valueError "UnicodeEncodeError")
  | some encoded => do
    -- nothing is written for an empty text
    if encoded ≠ [] then D.write out.pieces encoded
    .ok { out with
      pieces := out.pieces ++ [encoded]
      bytes := out.bytes ++ encoded
      size := out.size + encoded.length }

/-- `publish_text(redactor.redact_line(line))`. -/
def publishLine (P : Patterns) (D : Destination) (out : Output) (line : PyStr) :
    Except Exn Output := do
  let (value, r) ← redactLine P out.redactor line
  publishText D { out with redactor := r } value

/-- The line up to the first line feed, and what follows it. -/
def cutLine : PyStr → Option (PyStr × PyStr)
  | [] => none
  | c :: rest => if c = lf then some ([c], rest) else (cutLine rest).map (Prod.map (c :: ·) id)

/-- A cut line is the front of the text, and not empty. -/
theorem cutLine_length {text line rest : PyStr} (h : cutLine text = some (line, rest)) :
    text = line ++ rest ∧ 0 < line.length := by
  induction text generalizing line with
  | nil => exact absurd h (by simp [cutLine])
  | cons c text ih =>
    unfold cutLine at h
    split at h
    · obtain ⟨rfl, rfl⟩ := Prod.mk.inj (Option.some.inj h)
      simp
    · obtain ⟨⟨line', rest'⟩, hcut, heq⟩ := Option.map_eq_some_iff.mp h
      obtain ⟨rfl, rfl⟩ := Prod.mk.inj heq
      obtain ⟨rfl, -⟩ := ih hcut
      simp

def lineTooLong : Exn := valueError
    "redaction source has a logical line exceeding 1048576 characters"

/-- The inner loop: the complete lines of the pending text, and what stays pending. -/
def drainLines (P : Patterns) (D : Destination) (out : Output) (pending : PyStr) :
    Except Exn (Output × PyStr) :=
  match _hcut : cutLine pending with
  | none => if maxLogicalLineCharacters < pending.length then .error lineTooLong else
      .ok (out, pending)
  | some (line, rest) =>
    if maxLogicalLineCharacters < line.length - 1 then .error lineTooLong
    else
      match publishLine P D out line with
      | .error e => .error e
      | .ok out => drainLines P D out rest
termination_by pending.length
decreasing_by
  obtain ⟨heq, hpos⟩ := cutLine_length _hcut
  simp only [heq, List.length_append]
  omega

/-! ## Chunks -/

/-- The variables of the loop: what the digest of the source was given, its size, the bytes the
decoder keeps and the text that is pending. -/
structure StreamState where
  source : Bytes
  sourceSize : Nat
  kept : Bytes
  pending : PyStr
  out : Output

def StreamState.start : StreamState := ⟨[], 0, [], [], ⟨Redactor.new, [], [], 0⟩⟩

/-- One chunk. -/
def readChunk (P : Patterns) (D : Destination) (st : StreamState) (chunk : Bytes) :
    Except Exn StreamState :=
  if maxRedactionFileBytes < st.sourceSize + chunk.length then
    .error (valueError
      "redaction source exceeds 10485760 bytes; collect a bounded excerpt or summary")
  else
    match utf8DecodePart (st.kept ++ chunk) with
    | none => .error (valueError "UnicodeDecodeError")
    | some (text, kept) =>
      match drainLines P D st.out (st.pending ++ text) with
      | .error e => .error e
      | .ok (out, pending) => .ok ⟨st.source ++ chunk, st.sourceSize + chunk.length, kept,
          pending, out⟩

/-- The last line and the publication. -/
def endOutput (C : Crypto) (P : Patterns) (D : Destination) (source : Bytes) (sourceSize : Nat)
    (out : Output)
    (pending : PyStr) : Except Exn Streamed := do
  if maxLogicalLineCharacters < pending.length then .error lineTooLong
  let out ← if pending = [] then .ok out else publishLine P D out pending
  let (value, r) ← finish P out.redactor
  let out ← publishText D { out with redactor := r } value
  D.publish out.pieces
  .ok ⟨out.bytes, C.sha256 source, sourceSize, C.sha256 out.bytes, out.size, out.redactor.counts⟩

/-- From the last call of the decoder to the end. -/
def endStream (C : Crypto) (P : Patterns) (D : Destination) (st : StreamState) :
    Except Exn Streamed :=
  match utf8Decode st.kept with
  | none => .error (valueError "UnicodeDecodeError")
  | some text => endOutput C P D st.source st.sourceSize st.out (st.pending ++ text)

/-- `_stream_text_at` on the chunks that `os.read` gives; an empty one is the end of the file. -/
def streamTextAt (C : Crypto) (P : Patterns) (D : Destination) (st : StreamState) :
    List Bytes → Except Exn Streamed
  | [] => endStream C P D st
  | chunk :: chunks =>
    if chunk = [] then endStream C P D st
    else
      -- the first exception ends the run and nothing is published
      match readChunk P D st chunk with
      | .error e => .error e
      | .ok st => streamTextAt C P D st chunks

/-! ## Lines that come in two parts -/

/-- More text behind it does not change the first line. -/
theorem cutLine_append_some {text line rest : PyStr} (h : cutLine text = some (line, rest))
    (more : PyStr) :
    cutLine (text ++ more) = some (line, rest ++ more) := by
  induction text generalizing line with
  | nil => exact absurd h (by simp [cutLine])
  | cons c text ih =>
    rw [cutLine] at h
    rw [List.cons_append, cutLine]
    split at h
    · next hc =>
      obtain ⟨rfl, rfl⟩ := Prod.mk.inj (Option.some.inj h)
      rw [if_pos hc]
    · next hc =>
      obtain ⟨⟨line', rest'⟩, hcut, heq⟩ := Option.map_eq_some_iff.mp h
      obtain ⟨rfl, rfl⟩ := Prod.mk.inj heq
      rw [if_neg hc, ih hcut]
      rfl

/-- A line that starts with text without a line feed is longer than that text. -/
theorem cutLine_append_none {text more line rest : PyStr} (h : cutLine text = none)
    (hline : cutLine (text ++ more) = some (line, rest)) : text.length ≤ line.length - 1 := by
  induction text generalizing line with
  | nil => exact Nat.zero_le _
  | cons c text ih =>
    rw [cutLine] at h
    rw [List.cons_append, cutLine] at hline
    split at h
    · exact absurd h (by simp)
    · next hc =>
      rw [if_neg hc] at hline
      obtain ⟨⟨line', rest'⟩, hcut, heq⟩ := Option.map_eq_some_iff.mp hline
      obtain ⟨rfl, rfl⟩ := Prod.mk.inj heq
      have hle := ih (Option.map_eq_none_iff.mp h) hcut
      have hpos := (cutLine_length hcut).2
      simp only [List.length_cons]
      omega

section Stream

variable (P : Patterns) (D : Destination)

/-- The loop on a text in two parts, up to the exception that is raised. -/
theorem drainLines_append (out : Output) (pending more : PyStr) :
    (drainLines P D out (pending ++ more)).toOption
      = (drainLines P D out pending).toOption.bind fun r =>
      (drainLines P D r.1 (r.2 ++ more)).toOption := by
  fun_induction drainLines P D out pending with
  | case1 out pending hcut hlong =>
    -- the line is too long before it is complete, so it is too long when it is
    rw [drainLines]
    split
    · rw [if_pos (by rw [List.length_append]; omega)]
      rfl
    · next line rest hline =>
      have hle := cutLine_append_none hcut hline
      rw [if_pos (by omega)]
      rfl
  | case2 => rfl
  | case3 out pending line rest hcut hlong =>
    rw [drainLines, cutLine_append_some hcut]
    dsimp only
    rw [if_pos hlong]
    rfl
  | case4 out pending line rest hcut hlong e he =>
    rw [drainLines, cutLine_append_some hcut]
    dsimp only
    rw [if_neg hlong, he]
    rfl
  | case5 out pending line rest hcut hlong out' hout ih =>
    rw [drainLines, cutLine_append_some hcut]
    dsimp only
    rw [if_neg hlong, hout]
    exact ih

/-- What stays pending is the beginning of a line that may still be completed. -/
theorem drainLines_pending {out out' : Output} {pending pending' : PyStr}
    (h : drainLines P D out pending = .ok (out', pending')) :
    cutLine pending' = none ∧ pending'.length ≤ maxLogicalLineCharacters := by
  fun_induction drainLines P D out pending with
  | case1 => exact absurd h (by simp)
  | case2 out pending hcut hlong =>
    obtain ⟨-, rfl⟩ := Prod.mk.inj (Except.ok.inj h)
    exact ⟨hcut, Nat.le_of_not_lt hlong⟩
  | case3 => exact absurd h (by simp)
  | case4 => exact absurd h (by simp)
  | case5 out pending line rest hcut hlong out' hout ih => exact ih h

/-! ## Every split -/

/-- What holds before each chunk. -/
structure StreamState.Between (st : StreamState) : Prop where
  size : st.sourceSize ≤ maxRedactionFileBytes
  kept : st.kept = [] ∨ utf8Decode st.kept = none
  cut : cutLine st.pending = none
  short : st.pending.length ≤ maxLogicalLineCharacters

theorem StreamState.Between.start : StreamState.start.Between :=
  ⟨Nat.zero_le _, .inl rfl, rfl, Nat.zero_le _⟩

/-- Between two chunks no whole line is left over. -/
theorem StreamState.Between.readChunk {st st' : StreamState} {chunk : Bytes}
    (h : readChunk P D st chunk = .ok st') : st'.Between := by
  unfold Redaction.readChunk at h
  split at h
  · exact absurd h (by simp)
  · next hsize =>
    split at h
    · exact absurd h (by simp)
    · next text kept hdecode =>
      split at h
      · exact absurd h (by simp)
      · next out pending hdrain =>
        obtain rfl := Except.ok.inj h
        obtain ⟨hcut, hshort⟩ := drainLines_pending P D hdrain
        exact ⟨Nat.le_of_not_lt hsize, utf8Decode_kept hdecode, hcut, hshort⟩

/-- The rest of the source at once. -/
def streamRest (C : Crypto) (st : StreamState) (rest : Bytes) : Option Streamed :=
  if maxRedactionFileBytes < st.sourceSize + rest.length then none
  else
    (utf8Decode (st.kept ++ rest)).bind fun text =>
      (drainLines P D st.out (st.pending ++ text)).toOption.bind fun r =>
        (endOutput C P D (st.source ++ rest) (st.sourceSize + rest.length) r.1 r.2).toOption

/-- The end takes what is left as the rest of the stream. -/
theorem endStream_eq (C : Crypto) {st : StreamState} (h : st.Between) :
    (endStream C P D st).toOption = streamRest P D C st [] := by
  have hsize := h.size
  unfold endStream streamRest
  rw [if_neg (by rw [List.length_nil]; omega), List.append_nil, List.append_nil]
  rcases h.kept with hkept | hkept
  -- without a new byte there is no new line
  · have hdrain : drainLines P D st.out st.pending = .ok (st.out, st.pending) := by
      rw [drainLines, h.cut]
      exact if_neg (Nat.not_lt.mpr h.short)
    have hnil : utf8Decode [] = some [] := rfl
    rw [hkept, hnil]
    dsimp only [Option.bind_some]
    rw [List.append_nil, hdrain]
    rfl
  · rw [hkept]
    rfl

/-- A chunk and the rest give what the whole gives. This is the one fact about chunks: two ways to
split the same bytes meet in the whole. -/
theorem readChunk_eq (C : Crypto) (st : StreamState) (chunk rest : Bytes) :
    (readChunk P D st chunk).toOption.bind (fun st => streamRest P D C st rest)
      = streamRest P D C st (chunk ++ rest) := by
  unfold readChunk
  split
  · next hsize =>
    unfold streamRest
    rw [if_pos (by rw [List.length_append]; omega)]
    rfl
  · next hsize =>
    cases hdecode : utf8DecodePart (st.kept ++ chunk) with
    | none =>
      unfold streamRest
      rw [← List.append_assoc, utf8Decode_of_decodePart_none hdecode]
      simp [Except.toOption]
    | some r =>
      obtain ⟨text, kept⟩ := r
      have happend := drainLines_append P D st.out (st.pending ++ text)
      have hlength : st.sourceSize + (chunk ++ rest).length = st.sourceSize + chunk.length
        + rest.length := by
        rw [List.length_append, Nat.add_assoc]
      dsimp only
      cases hdrain : drainLines P D st.out (st.pending ++ text) with
      | error e =>
        -- what one of the lines so far raises, it raises whatever follows
        have hmore : ∀ more, (drainLines P D st.out (st.pending ++ text ++ more)).toOption
          = none := by
          intro more
          rw [happend, hdrain]
          rfl
        unfold streamRest
        rw [← List.append_assoc, utf8Decode_of_decodePart hdecode]
        cases utf8Decode (kept ++ rest) with
        | none => simp [Except.toOption]
        | some more =>
          rw [Option.map_some, Option.bind_some, ← List.append_assoc, hmore]
          simp [Except.toOption]
      | ok r =>
        obtain ⟨out, pending⟩ := r
        have hmore : ∀ more, (drainLines P D st.out (st.pending ++ text ++ more)).toOption
            = (drainLines P D out (pending ++ more)).toOption := by
          intro more
          rw [happend, hdrain]
          rfl
        have hread (s : StreamState) : (Except.ok s : Except Exn StreamState).toOption
          = some s := rfl
        dsimp only
        rw [hread, Option.bind_some]
        unfold streamRest
        dsimp only
        rw [← List.append_assoc st.kept, utf8Decode_of_decodePart hdecode,
          ← List.append_assoc st.source, hlength]
        cases utf8Decode (kept ++ rest) with
        | none => rfl
        | some more =>
          rw [Option.map_some, Option.bind_some, Option.bind_some,
            ← List.append_assoc st.pending, hmore]

theorem streamTextAt_eq (C : Crypto) {chunks : List Bytes} (hchunks : ∀ c ∈ chunks, c ≠ [])
    {st : StreamState}
    (h : st.Between) : (streamTextAt C P D st chunks).toOption
    = streamRest P D C st chunks.flatten := by
  induction chunks generalizing st with
  | nil => exact endStream_eq P D C h
  | cons chunk chunks ih =>
    rw [streamTextAt, if_neg (hchunks chunk (List.mem_cons_self ..)), List.flatten_cons,
      ← readChunk_eq]
    cases hread : readChunk P D st chunk with
    | error e => rfl
    | ok st' =>
      exact ih (fun c hc => hchunks c (List.mem_cons_of_mem _ hc))
        (StreamState.Between.readChunk P D hread)

end Stream

/-- The chunks that a source is read in. -/
structure Reads (source : Bytes) (chunks : List Bytes) : Prop where
  flatten : chunks.flatten = source
  nonempty : ∀ c ∈ chunks, c ≠ []

/-- Two ways to read a source both end without a result, or both give the same. -/
theorem stream_independent (C : Crypto) (P : Patterns) (D : Destination) {source : Bytes}
    {chunks chunks' : List Bytes} (h : Reads source chunks) (h' : Reads source chunks') :
    (streamTextAt C P D .start chunks).toOption = (streamTextAt C P D .start chunks').toOption := by
  rw [streamTextAt_eq P D C h.nonempty .start, streamTextAt_eq P D C h'.nonempty .start, h.flatten,
    h'.flatten]

/-- Patterns for a text in which none of them is found. -/
def noPatterns : Patterns where
  crossLineRules := []
  quotedStarts := []
  privateKeyBegin := fun _ => none
  privateKeyEnd := fun _ => none
  markerStarts := fun _ => []
  streamRules := []
  holdsProviderCredential := fun _ => false
  holdsLocalUserPath := fun _ => false
  lower := id
  casefold := id

/-- Two lines, the first an `é`, which takes two bytes. -/
def twoLines : Bytes := [byte 0xC3, byte 0xA9, byte 0x0A, byte 0x62]

/-- The digest of the two lines, which are written as they are. -/
def twoLinesCrypto : Crypto :=
  .ofTables [(some twoLines, 0x7148cd8e7e8f217e0014f9cf850c20d98172ee92356d2d1a79263d086e527d12)] []

def writable : Destination := ⟨fun _ _ => .ok (), fun _ => .ok ()⟩

/-- The `é` is cut in two and the line feed stands alone, or the source comes at once: one
result. -/
theorem two_lines_independent :
    (streamTextAt twoLinesCrypto noPatterns writable .start
        [[byte 0xC3], [byte 0xA9], [byte 0x0A], [byte 0x62]]).toOption
      = (streamTextAt twoLinesCrypto noPatterns writable .start [twoLines]).toOption
    ∧ (streamTextAt twoLinesCrypto noPatterns writable .start [twoLines]).isOk = true :=
  ⟨stream_independent twoLinesCrypto noPatterns writable ⟨rfl, by simp⟩ ⟨rfl, by simp [twoLines]⟩,
    by decide +kernel⟩

end SddGov.Redaction
