import SddGov.Python.Lines
import SddGov.Python.Exn

/-!
# The streaming redactor

`_StreamingTextRedactor` takes a text line by line. It carries four things from
one line to the next: whether it is inside a private key, a piece that may be
the beginning of a key marker, a sensitive field whose value may come on a later
line, and a quoted value that is not closed yet. What the regular expressions of
the module match is `Patterns`.
-/

namespace SddGov.Redaction

open SddGov.Python

def maxPrivateKeyMarkerCharacters : Nat := 4096

def maxCrossLineFieldCharacters : Nat := 4096

def privateKeyMarkerLiterals : List PyStr := [lit "-----begin", lit "-----end"]

/-! ## Regular expressions -/

/-- Where a pattern that matches no empty text was found. -/
structure Span where
  start : Nat
  stop : Nat
  lt : start < stop

/-- A row of `CROSS_LINE_FIELD_STARTS`, with the rule of `CROSS_LINE_FIELD_RULES` it goes with. -/
structure CrossLineRule where
  ruleId : PyStr
  /-- `start.search(line)`: the match and its group `tail`. -/
  search : PyStr → Option (PyStr × PyStr)
  /-- `pending.fullmatch(tail) is not None` -/
  isPending : PyStr → Bool
  /-- `rule.pattern.finditer(candidate)`, each match as its text. -/
  found : PyStr → List PyStr

/-- A match of `QUOTED_CROSS_LINE_FIELD_STARTS` with its group `quote`. -/
structure QuoteMatch where
  start : Nat
  quoteStart : Nat
  quote : CodePoint

/-- The regular expressions of the module, by what they match, and the case mappings of `str`. -/
structure Patterns where
  crossLineRules : List CrossLineRule
  quotedStarts : List (PyStr × (PyStr → List QuoteMatch))
  privateKeyBegin : PyStr → Option Span
  privateKeyEnd : PyStr → Option Span
  /-- `PRIVATE_KEY_MARKER_PREFIX.finditer`, each match as its start and its text. -/
  markerStarts : PyStr → List (Nat × PyStr)
  /-- `STREAM_RULES`, each as its id and `pattern.subn(replacement, text)`. -/
  streamRules : List (PyStr × (PyStr → PyStr × Nat))
  holdsProviderCredential : PyStr → Bool
  holdsLocalUserPath : PyStr → Bool
  lower : PyStr → PyStr
  casefold : PyStr → PyStr

/-! ## The state -/

/-- `cross_line_field`. -/
structure CrossLineField where
  rule : CrossLineRule
  candidate : PyStr
  tail : PyStr

/-- `quoted_cross_line_field`. -/
structure QuotedField where
  ruleId : PyStr
  quote : CodePoint
  candidate : PyStr
  quoteOffset : Nat

abbrev Counts := List (PyStr × Nat)

/-- `_StreamingTextRedactor`. -/
structure Redactor where
  inPrivateKey : Bool
  markerFragment : PyStr
  counts : Counts
  crossLineField : Option CrossLineField
  quotedCrossLineField : Option QuotedField

def Redactor.new : Redactor := ⟨false, [], [], none, none⟩

/-- `total[key] = total.get(key, 0) + value`. -/
def addCount (key : PyStr) (value : Nat) : Counts → Counts
  | [] => [(key, value)]
  | (k, n) :: rest => if k = key then (k, n + value) :: rest else (k, n) :: addCount key value rest

/-- `_merge_counts`. -/
def mergeCounts (total added : Counts) : Counts :=
  added.foldl (fun counts row => addCount row.1 row.2 counts) total

/-! ## Quoted fields -/

def cr : CodePoint := cp 0x0D

def isLineEnd (c : CodePoint) : Bool := c == lf || c == cr

/-- `_closing_quote` from `index` on, where `text` is what stands there. -/
def closingQuoteFrom (quote : CodePoint) (index : Nat) : PyStr → Except Exn (Option Nat)
  | [] => .ok none
  | c :: rest =>
    if c = cp 0x5C then
      match rest with
      | [] => .ok none
      | d :: rest =>
        if isLineEnd d then
          .error (valueError "quoted sensitive field contains an invalid line escape")
        else closingQuoteFrom quote (index + 2) rest
    else if c = quote then .ok (some index)
    else closingQuoteFrom quote (index + 1) rest

/-- `_closing_quote`. -/
def closingQuote (text : PyStr) (quote : CodePoint) (start : Nat) : Except Exn (Option Nat) :=
  closingQuoteFrom quote start (text.drop start)

/-- The first match of one rule whose quote is not closed, as the tuple it is compared by. -/
def unclosedMatch (text : PyStr) (ruleId : PyStr) :
    List QuoteMatch → Except Exn (Option (Nat × PyStr × CodePoint × Nat))
  | [] => .ok none
  | m :: rest => do
    match ← closingQuote text m.quote (m.quoteStart + 1) with
    | none => .ok (some (m.start, ruleId, m.quote, m.quoteStart - m.start))
    | some _ => unclosedMatch text ruleId rest

/-- `candidates`. -/
def unclosedMatches (text : PyStr) :
    List (PyStr × (PyStr → List QuoteMatch)) → Except Exn (List (Nat × PyStr × CodePoint × Nat))
  | [] => .ok []
  | (ruleId, found) :: rest => do
    let first ← unclosedMatch text ruleId (found text)
    let others ← unclosedMatches text rest
    .ok (first.toList ++ others)

/-- Tuples are compared by their first difference. -/
def tupleLt (a b : Nat × PyStr × CodePoint × Nat) : Bool :=
  if a.1 ≠ b.1 then a.1 < b.1
  else if a.2.1 ≠ b.2.1 then strLe a.2.1 b.2.1
  else if a.2.2.1 ≠ b.2.2.1 then a.2.2.1 < b.2.2.1
  else a.2.2.2 < b.2.2.2

/-- `_incomplete_quoted_field`: the rule, the quote, where the field starts and the offset of its
quote. -/
def incompleteQuotedField (P : Patterns) (text : PyStr) :
    Except Exn (Option (Nat × PyStr × CodePoint × Nat)) := do
  match ← unclosedMatches text P.quotedStarts with
  | [] => .ok none
  | first :: rest =>
      .ok (some (rest.foldl (fun best row => if tupleLt row best then row else best) first))

/-! ## Private keys -/

/-- `text.removesuffix(c)` for one character. -/
def dropLast (c : CodePoint) (text : PyStr) : PyStr :=
  if text.getLast? = some c then text.dropLast else text

/-- `text.rstrip("\r\n")`. -/
def dropLineEnds (text : PyStr) : PyStr := (text.reverse.dropWhile isLineEnd).reverse

/-- The longest beginning of the literal, up to `length` characters, that the line ends with. -/
def partialMarker (P : Patterns) (logical literal : PyStr) : Nat → Option Nat
  | 0 => none
  | length + 1 =>
    let candidateStart := logical.length - (length + 1)
    if P.lower (logical.drop candidateStart) = literal.take (length + 1)
        ∧ (candidateStart = 0 ∨ logical[candidateStart - 1]? ≠ some (cp 0x2D)) then
      some candidateStart
    else partialMarker P logical literal length

/-- Where a marker that is not complete starts. -/
def partialMarkerStart (P : Patterns) (text : PyStr) : Option Nat :=
  let logical := dropLast cr (dropLast lf text)
  privateKeyMarkerLiterals.findSome? fun literal =>
    partialMarker P logical literal (min (literal.length - 1) logical.length)

/-- The text up to a marker, and the marker as it is kept for the next line. -/
def holdFrom (text : PyStr) (marker : Nat) : Except Exn (PyStr × PyStr) :=
  if maxPrivateKeyMarkerCharacters < (text.drop marker).length then
    .error (valueError "private key marker exceeds the streaming safety limit")
  else .ok (text.take marker, text.drop marker)

/-- `_hold_incomplete_marker`. -/
def holdIncompleteMarker (P : Patterns) (text front : PyStr) : Except Exn (PyStr × PyStr) :=
  match ((P.markerStarts text).filter fun m => P.casefold m.2 == P.casefold front).getLast? with
  | none =>
    match partialMarkerStart P text with
    | none => .ok (text, [])
    | some marker => holdFrom text marker
  | some (marker, _) =>
    if decide (lit "-----" <:+: text.drop (marker + front.length)) then .ok (text, [])
    else holdFrom text marker

/-- The loop of `_private_keys`: what it puts out, and whether it ends inside a key, with the
fragment and the counts. -/
def privateKeysLoop (P : Patterns) (r : Redactor) (output remaining : PyStr) :
    Except Exn (PyStr × Redactor) :=
  if _hmore : remaining = [] then .ok (output, r)
  else if r.inPrivateKey then
    match P.privateKeyEnd remaining with
    | none => do
      let (_, fragment) ← holdIncompleteMarker P remaining (lit "-----END")
      .ok (output, { r with markerFragment := fragment })
    | some last => privateKeysLoop P { r with inPrivateKey := false } output
        (remaining.drop last.stop)
  else
    match P.privateKeyBegin remaining with
    | none => do
      let (safe, fragment) ← holdIncompleteMarker P remaining (lit "-----BEGIN")
      .ok (output ++ safe, { r with markerFragment := fragment })
    | some first =>
      let output := output ++ remaining.take first.start ++ lit "[REDACTED_PRIVATE_KEY]"
      let r := { r with counts := addCount (lit "private-key") 1 r.counts }
      let rest := remaining.drop first.stop
      match P.privateKeyEnd rest with
      | none => .ok (output, { r with inPrivateKey := true })
      | some last => privateKeysLoop P r output (rest.drop last.stop)
termination_by remaining.length
decreasing_by
  · have := List.length_pos_iff.mpr _hmore
    have := last.lt
    simp only [List.length_drop]
    omega
  · have := List.length_pos_iff.mpr _hmore
    have := last.lt
    have := first.lt
    simp only [List.length_drop]
    omega

/-- `_private_keys`. -/
def privateKeys (P : Patterns) (r : Redactor) (text : PyStr) : Except Exn (PyStr × Redactor) :=
  let carried := r.markerFragment
  let r := { r with markerFragment := [] }
  if carried.getLast?.any isLineEnd then
    let logical := dropLineEnds carried
    if privateKeyMarkerLiterals.any fun literal => decide (literal <:+: P.lower logical) then
      privateKeysLoop P r [] (carried ++ text)
    else if privateKeyMarkerLiterals.any fun literal =>
        (P.lower ((logical ++ text).take literal.length)).isPrefixOf literal then
      .error (valueError "private key marker is split across a logical-line boundary")
    else privateKeysLoop P r carried text
  else privateKeysLoop P r [] (carried ++ text)

/-! ## Lines -/

/-- The rules one after the other, with how often each has replaced something. -/
def substitute : List (PyStr × (PyStr → PyStr × Nat)) → PyStr → PyStr × Counts
  | [], text => (text, [])
  | (ruleId, subn) :: rest, text =>
    let (cleaned, count) := subn text
    let (last, counts) := substitute rest cleaned
    (last, if count = 0 then counts else (ruleId, count) :: counts)

/-- `_apply_stream_rules`. -/
def applyStreamRules (P : Patterns) (r : Redactor) (text : PyStr) : Except Exn (PyStr × Redactor) :=
  let (cleaned, counts) := substitute P.streamRules text
  if P.holdsProviderCredential cleaned then
    .error (valueError "unredacted known provider credential identifier")
  else if P.holdsLocalUserPath cleaned then
    .error (valueError "unredacted absolute user workspace path")
  else .ok (cleaned, { r with counts := mergeCounts r.counts counts })

/-- `self._apply_stream_rules(self._private_keys(text))`. -/
def redactPiece (P : Patterns) (r : Redactor) (text : PyStr) : Except Exn (PyStr × Redactor) := do
  let (kept, r) ← privateKeys P r text
  applyStreamRules P r kept

/-- The first rule that starts in the line. -/
def startCrossLineField (P : Patterns) (r : Redactor) (line : PyStr) : Redactor :=
  match P.crossLineRules.findSome? fun rule => (rule.search line).map fun m =>
    CrossLineField.mk rule m.1 m.2 with
  | none => r
  | some field => { r with crossLineField := some field }

/-- `_reject_cross_line_sensitive_field`. -/
def rejectCrossLineSensitiveField (P : Patterns) (r : Redactor) (line : PyStr) :
    Except Exn Redactor :=
  match r.crossLineField with
  | none => .ok (startCrossLineField P r line)
  | some field =>
    let candidate := field.candidate ++ line
    let tail := field.tail ++ line
    if maxCrossLineFieldCharacters < candidate.length then
      .error (valueError "cross-line sensitive field exceeds the streaming safety limit")
    else if (field.rule.found candidate).any fun found => found.any isLineEnd then
      .error (.value (lit "cross-line sensitive field is not shareable: " ++ field.rule.ruleId))
    else if field.rule.isPending tail then
      .ok { r with crossLineField := some ⟨field.rule, candidate, tail⟩ }
    else .ok (startCrossLineField P { r with crossLineField := none } line)

def exceedsLimit : Exn := valueError "quoted sensitive field exceeds the streaming safety limit"

/-- `_quoted_sensitive_fields` where no quoted field is open. -/
def quotedFieldsClosed (P : Patterns) (r : Redactor) (text : PyStr) :
    Except Exn (PyStr × Redactor) := do
  match ← incompleteQuotedField P text with
  | none => redactPiece P r text
  | some (fieldStart, ruleId, quote, quoteOffset) =>
    let candidate := text.drop fieldStart
    if maxCrossLineFieldCharacters < candidate.length then .error exceedsLimit
    else
      let r := { r with quotedCrossLineField := some ⟨ruleId, quote, candidate, quoteOffset⟩ }
      redactPiece P r (text.take fieldStart)

/-- `redact_line` where no quoted field is open. -/
def redactLineClosed (P : Patterns) (r : Redactor) (line : PyStr) :
    Except Exn (PyStr × Redactor) := do
  let r ← rejectCrossLineSensitiveField P r line
  quotedFieldsClosed P r line

/-- `_quoted_sensitive_fields`. What follows a quoted field that ends in the line is a line
again. -/
def quotedSensitiveFields (P : Patterns) (r : Redactor) (text : PyStr) :
    Except Exn (PyStr × Redactor) :=
  match r.quotedCrossLineField with
  | none => quotedFieldsClosed P r text
  | some open_ => do
    let candidate := open_.candidate ++ text
    match ← closingQuote candidate open_.quote (open_.quoteOffset + 1) with
    | none =>
      if maxCrossLineFieldCharacters < candidate.length then .error exceedsLimit
      else .ok ([], { r with quotedCrossLineField := some { open_ with candidate } })
    | some closing =>
      if maxCrossLineFieldCharacters < closing + 1 then .error exceedsLimit
      else do
        let (field, r) ← redactPiece P { r with quotedCrossLineField := none }
          (candidate.take (closing + 1))
        let (remainder, r) ← redactLineClosed P r (candidate.drop (closing + 1))
        .ok (field ++ remainder, r)

/-- `redact_line`. -/
def redactLine (P : Patterns) (r : Redactor) (line : PyStr) : Except Exn (PyStr × Redactor) := do
  let r ← rejectCrossLineSensitiveField P r line
  quotedSensitiveFields P r line

/-- `finish`. -/
def finish (P : Patterns) (r : Redactor) : Except Exn (PyStr × Redactor) :=
  if r.quotedCrossLineField.isSome then
    .error (valueError "unterminated quoted sensitive field in redaction source")
  else if r.inPrivateKey then .error
    (valueError "unterminated private key block in redaction source")
  else if r.markerFragment = [] then .ok ([], r)
  else applyStreamRules P { r with markerFragment := [] } r.markerFragment

end SddGov.Redaction
