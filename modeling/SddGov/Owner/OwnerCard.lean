import SddGov.Autonomy.PlainDecision
import SddGov.Python.JsonRoundTrip
import SddGov.Python.LineParts

/-!
# The Owner's card

`_validated_owner_card` and `render_product_approval_card`. A validated text holds
no character of the categories that are not shown, and every character that
breaks a line is one of these. So the lines of the card are read back from its
text; an item of a list begins with a dash and the line behind a list is empty,
which ends the list (`bullets_inj`). Two cards with the same text show the same
in every field, and the number of lines is that of the items and thirty more
(`card_unambiguous`).
-/

namespace SddGov.Owner

open SddGov.Python

/-! ## Texts that may be shown -/

/-- `unicodedata.category`, of which is asked whether it begins with `C` or is `Zl` or `Zp`. Line
feeds and the other characters that break a line are of category `Cc`, `Zl` or `Zp`. -/
structure Categories where
  isHidden : CodePoint → Bool
  hides : ∀ c, isLineBreak c = true → isHidden c = true

variable (U : Categories) (C : Crypto)

/-- `MAX_CARD_FIELD_BYTES` -/
def maxCardFieldBytes : Nat := 8192

/-- `MAX_RENDERED_CARD_BYTES` -/
def maxRenderedCardBytes : Nat := 32768

/-- `MAX_ASSUMPTION_PATHS` -/
def maxAssumptionPaths : Nat := 8

/-- `len(value.encode("utf-8"))` against a bound; a lone surrogate cannot be encoded. -/
def requireSize (value : PyStr) (limit : Nat) (error : Exn) : Except Exn Unit :=
  match utf8Encode value with
  | none => .error (valueError "UnicodeEncodeError")
  | some bytes => if limit < bytes.length then .error error else .ok ()

/-- `_require_terminal_safe_text` -/
def requireTerminalSafeText (value : Json) (label : PyStr) : Except Exn PyStr :=
  match value with
  | .str s =>
    if isBlank s then .error (.value (label ++ lit " must be one non-empty string"))
    else if s.any U.isHidden then
      .error (.value (label ++ lit " contains terminal control or invisible text"))
    else do
      requireSize s maxCardFieldBytes (.value (label ++ lit " exceeds the bounded display size"))
      .ok s
  | _ => .error (.value (label ++ lit " must be one non-empty string"))

/-- `_safe_relative_path` -/
def safeRelativePath (value label : PyStr) : Except Exn PyStr :=
  if value.isEmpty || value.contains nul || value.contains (cp 0x5C) || value.any U.isHidden
      || !Autonomy.isRelativePath value then
    .error (.value (label ++ lit " must be a canonical repository-relative path"))
  else .ok value

/-! ## The validation -/

/-- The fields that are one text each. -/
def textFields : List PyStr :=
  ["heading", "decision_id", "risk_level", "why_human_input_is_required", "recommended", "why",
    "impact_if_no_decision", "scope_of_approval", "approver_id", "repository_id",
      "trust_domain"].map lit

def checkTexts (card : Members) : List PyStr → Except Exn Unit
  | [] => .ok ()
  | field :: rest => do
    let _ ← requireTerminalSafeText U (get field card) (lit "product approval " ++ field)
    checkTexts card rest

def checkFacts : Nat → List Json → Except Exn Unit
  | _, [] => .ok ()
  | index, value :: rest => do
    let _ ← requireTerminalSafeText U value (lit "product approval verified fact " ++ natText index)
    checkFacts (index + 1) rest

/-- The labels of the options. -/
def optionLabels : Nat → List Json → Except Exn (List PyStr)
  | _, [] => .ok []
  | index, .obj option :: rest =>
    if !keysEq option [lit "label", lit "description"] then
      .error (valueError "product approval options have an invalid contract")
    else do
      let label ← requireTerminalSafeText U (get (lit "label") option)
        (lit "product approval option " ++ natText index ++ lit " label")
      let _ ← requireTerminalSafeText U (get (lit "description") option)
        (lit "product approval option " ++ natText index ++ lit " description")
      let labels ← optionLabels (index + 1) rest
      .ok (label :: labels)
  | _, _ => .error (valueError "product approval options have an invalid contract")

/-- The assumption paths, normalized. -/
def assumptionPaths : Nat → List Json → Except Exn (List PyStr)
  | _, [] => .ok []
  | index, value :: rest => do
    let safe ← requireTerminalSafeText U value (lit "product approval assumption path "
      ++ natText index)
    let path ← safeRelativePath U safe (lit "product approval assumption path")
    let paths ← assumptionPaths (index + 1) rest
    .ok (path :: paths)

/-- 64 hexadecimal digits. -/
def isHexDigest : Json → Bool
  | .str s => isSha256 s
  | _ => false

/-- The paths of the client's source rows. -/
def sourcePaths : List Json → Except Exn (List PyStr)
  | [] => .ok []
  | .obj row :: rest =>
    if !keysEq row [lit "path", lit "sha256"] then
      .error (valueError "product approval Owner client source row is invalid")
    else
      match get (lit "path") row with
      | .str path => do
        let safe ← safeRelativePath U path (lit "Owner client source path")
        if !(lit "sddgov/").isPrefixOf safe then
          .error (valueError "product approval Owner client source path is invalid")
        else if !isHexDigest (get (lit "sha256") row) then
          .error (valueError "product approval Owner client source digest is invalid")
        else do
          let paths ← sourcePaths rest
          .ok (safe :: paths)
      | _ => .error (valueError "product approval Owner client source path is invalid")
  | _ => .error (valueError "product approval Owner client source row is invalid")

/-- `owner_client` -/
def checkOwnerClient (value : Json) : Except Exn Unit :=
  let invalid := valueError "product approval Owner client identity is invalid"
  match value with
  | .obj client =>
    if !keysEq client [lit "version", lit "source_files", lit "source_sha256"] then .error invalid
    else do
      let _ ← requireTerminalSafeText U (get (lit "version") client)
        (lit "product approval Owner client version")
      match get (lit "source_sha256") client, get (lit "source_files") client with
      | .str sha256, .arr files =>
        if !isSha256 sha256 || files.isEmpty || 32 < files.length then .error invalid
        else do
          let paths ← sourcePaths U files
          match C.digest (.arr files) with
          | none => .error (valueError "canonical JSON")
          | some digest => if paths ≠ sortedSet paths ∨ sha256 ≠ digest then
              .error invalid else .ok ()
      | _, _ => .error invalid
  | _ => .error invalid

/-- The verified facts. -/
def checkVerified (value : Json) : Except Exn Unit :=
  match value with
  | .arr facts =>
    if facts.isEmpty then
      .error (valueError "product approval verified facts must be a non-empty list")
    else checkFacts U 0 facts
  | _ => .error (valueError "product approval verified facts must be a non-empty list")

/-- The options and the recommendation. -/
def checkOptions (options recommended : Json) : Except Exn Unit :=
  match options with
  | .arr rows =>
    if rows.length ≠ 2 then .error
      (valueError "product approval card requires exactly options A and B")
    else do
      let labels ← optionLabels U 0 rows
      let known ← memberOfSet recommended [lit "A", lit "B"]
      if labels ≠ [lit "A", lit "B"] ∨ known = false then
        .error (valueError "product approval card requires unique ordered labels A and B")
      else if !pyEq recommended (.str (lit "A")) then
        .error (valueError "product approval card requires A as the only approvable option")
      else .ok ()
  | _ => .error (valueError "product approval card requires exactly options A and B")

/-- The contract artifacts. -/
def checkArtifacts (value : Json) : Except Exn Unit :=
  match value with
  | .arr values =>
    if values.isEmpty || maxAssumptionPaths < values.length then
      .error (valueError "product approval card requires bounded assumption paths")
    else do
      let paths ← assumptionPaths U 0 values
      if paths ≠ sortedSet paths then
        .error (valueError "product approval card assumption paths must be unique and sorted")
      else .ok ()
  | _ => .error (valueError "product approval card requires bounded assumption paths")

def checkValidity (value : Json) : Except Exn Unit :=
  match value with
  | .int days =>
    if 1 ≤ days ∧ days ≤ 366 then .ok ()
    else .error (valueError "product approval validity must be between 1 and 366 days")
  | _ => .error (valueError "product approval validity must be between 1 and 366 days")

/-- `_validated_owner_card` -/
def validatedOwnerCard (card : Members) : Except Exn Unit := do
  checkTexts U card textFields
  checkVerified U (get (lit "what_agent_already_verified") card)
  checkOptions U (get (lit "options") card) (get (lit "recommended") card)
  checkArtifacts U (get (lit "assumption_paths") card)
  checkValidity (get (lit "valid_days") card)
  checkOwnerClient U C (get (lit "owner_client") card)
  require (isHexDigest (get (lit "approver_key_sha256") card))
    "product approval trusted Owner key identity is invalid"

/-! ## The rendering -/

/-- A validated text. -/
def shown : Json → PyStr
  | .str s => s
  | _ => []

def shownDays : Json → PyStr
  | .int days => intText days
  | _ => []

/-- The items of a list. -/
def items : Json → List Json
  | .arr xs => xs
  | _ => []

def fieldsOf : Json → Members
  | .obj m => m
  | _ => []

/-- The items of a list, a line each. -/
def bullets (texts : List PyStr) : List PyStr := texts.map (lit "- " ++ ·)

def optionLine (option : Json) : PyStr :=
  lit "[" ++ shown (get (lit "label") (fieldsOf option)) ++ lit "] "
    ++ shown (get (lit "description") (fieldsOf option))

/-- The lines up to the facts. -/
def topLines (card : Members) : List PyStr :=
  [lit "SDG OWNER DECISION", lit "Decision: " ++ shown (get (lit "decision_id") card),
    lit "Risk: " ++ shown (get (lit "risk_level") card), [], lit "Why your decision is required:",
    shown (get (lit "why_human_input_is_required") card), [],
      lit "Already verified by Agents and machines:"]

/-- The lines between the facts and the artifacts. -/
def scopeLines (card : Members) : List PyStr :=
  [[], lit "Scope:", shown (get (lit "scope_of_approval") card), [], lit "Contract artifacts:"]

/-- The lines between the artifacts and the options. -/
def identityLines (card : Members) : List PyStr :=
  [[], lit "Approver identity: " ++ shown (get (lit "approver_id") card),
    lit "Repository: " ++ shown (get (lit "repository_id") card),
    lit "Trust domain: " ++ shown (get (lit "trust_domain") card),
    lit "Owner client: SDG " ++ shown
      (get (lit "version") (fieldsOf (get (lit "owner_client") card)))
      ++ lit " (matches governed reviewed source identity)",
    lit "Receipt validity: " ++ shownDays (get (lit "valid_days") card) ++ lit " days", [],
      lit "Options:"]

/-- The lines behind the options. -/
def bottomLines (card : Members) : List PyStr :=
  [[], lit "Recommended: " ++ shown (get (lit "recommended") card),
    shown (get (lit "why") card), [],
    lit "If unanswered: " ++ shown (get (lit "impact_if_no_decision") card), [],
    lit "SDG computes and verifies the receipt, assumptions, nonce, and signature."]

def cardLines (card : Members) : List PyStr :=
  topLines card ++ bullets ((items (get (lit "what_agent_already_verified") card)).map shown)
    ++ (scopeLines card ++ bullets ((items (get (lit "assumption_paths") card)).map shown)
      ++ (identityLines card ++ (items (get (lit "options") card)).map optionLine
        ++ bottomLines card))

/-- `render_product_approval_card` -/
def renderProductApprovalCard (card : Members) : Except Exn PyStr := do
  validatedOwnerCard U C card
  let rendered := terminated lf (cardLines card)
  requireSize rendered maxRenderedCardBytes
    (valueError "product approval card exceeds the bounded terminal size")
  .ok rendered

/-! ## What is shown -/

/-- The fields that are shown as one text each. -/
def shownFields : List PyStr :=
  ["decision_id", "risk_level", "why_human_input_is_required", "scope_of_approval", "approver_id",
    "repository_id",
    "trust_domain", "recommended", "why", "impact_if_no_decision"].map lit

/-- The version of the client. -/
def clientVersion (card : Members) : Json := get (lit "version")
    (fieldsOf (get (lit "owner_client") card))

/-- The labels and descriptions of the options. -/
def optionTexts (card : Members) : List (Json × Json) :=
  (items (get (lit "options") card)).map fun option =>
    (get (lit "label") (fieldsOf option), get (lit "description") (fieldsOf option))

/-- Two cards show the same. -/
structure ShowSame (card card' : Members) : Prop where
  texts : ∀ field ∈ shownFields, get field card = get field card'
  facts : get (lit "what_agent_already_verified") card
    = get (lit "what_agent_already_verified") card'
  artifacts : get (lit "assumption_paths") card = get (lit "assumption_paths") card'
  version : clientVersion card = clientVersion card'
  days : get (lit "valid_days") card = get (lit "valid_days") card'
  options : optionTexts card = optionTexts card'

/-! ## What is known of a validated card -/

/-- A text in which every character is shown. -/
def IsShown (v : Json) : Prop := ∃ s, v = .str s ∧ ∀ c ∈ s, U.isHidden c = false

variable {U C}

/-- A text that is shown has no hidden character. -/
theorem requireTerminalSafeText_ok {v : Json} {label s : PyStr}
    (h : requireTerminalSafeText U v label = .ok s) :
    v = .str s ∧ ∀ c ∈ s, U.isHidden c = false := by
  unfold requireTerminalSafeText at h
  split at h
  · next t =>
    split at h
    · cases h
    · split at h
      · cases h
      · next hhidden =>
        obtain ⟨u, -, hs⟩ := except_bind_ok.mp h
        obtain rfl := Except.ok.inj hs
        refine ⟨rfl, fun c hc => ?_⟩
        by_contra hc'
        exact hhidden (List.any_eq_true.mpr ⟨c, hc, by simpa using hc'⟩)
  · cases h

theorem IsShown.of_ok {v : Json} {label s : PyStr} (h : requireTerminalSafeText U v label = .ok s) :
    IsShown U v :=
  ⟨s, requireTerminalSafeText_ok h⟩

/-- A shown text is the text of its value. -/
theorem IsShown.eq {v : Json} (h : IsShown U v) : v = .str (shown v) := by
  obtain ⟨s, rfl, -⟩ := h
  rfl

theorem IsShown.unbroken {v : Json} (h : IsShown U v) : ∀ c ∈ shown v, isLineBreak c = false := by
  obtain ⟨s, rfl, hs⟩ := h
  intro c hc
  by_contra hbreak
  have hhidden := U.hides c (by simpa using hbreak)
  rw [hs c hc] at hhidden
  cases hhidden

theorem checkTexts_ok {card : Members} {fields : List PyStr}
    (h : checkTexts U card fields = .ok ()) :
    ∀ field ∈ fields, IsShown U (get field card) := by
  induction fields with
  | nil => simp
  | cons field rest ih =>
    obtain ⟨s, hs, hrest⟩ := except_bind_ok.mp h
    exact List.forall_mem_cons.mpr ⟨.of_ok hs, ih hrest⟩

theorem checkFacts_ok {index : Nat} {facts : List Json} (h : checkFacts U index facts = .ok ()) :
    ∀ fact ∈ facts, IsShown U fact := by
  induction facts generalizing index with
  | nil => simp
  | cons fact rest ih =>
    obtain ⟨s, hs, hrest⟩ := except_bind_ok.mp h
    exact List.forall_mem_cons.mpr ⟨.of_ok hs, ih hrest⟩

theorem assumptionPaths_ok {index : Nat} {values : List Json} {paths : List PyStr}
    (h : assumptionPaths U index values = .ok paths) : ∀ value ∈ values, IsShown U value := by
  induction values generalizing index paths with
  | nil => simp
  | cons value rest ih =>
    obtain ⟨s, hs, h⟩ := except_bind_ok.mp h
    obtain ⟨path, -, h⟩ := except_bind_ok.mp h
    obtain ⟨others, hothers, -⟩ := except_bind_ok.mp h
    exact List.forall_mem_cons.mpr ⟨.of_ok hs, ih hothers⟩

/-- The options with these labels: each label is a text, and so is each description. -/
theorem optionLabels_ok {index : Nat} {options : List Json} {labels : List PyStr}
    (h : optionLabels U index options = .ok labels) :
    options.map (fun option => get (lit "label") (fieldsOf option)) = labels.map .str
      ∧ ∀ option ∈ options, IsShown U (get (lit "label") (fieldsOf option))
        ∧ IsShown U (get (lit "description") (fieldsOf option)) := by
  induction options generalizing index labels with
  | nil =>
    obtain rfl := Except.ok.inj h
    exact ⟨rfl, by simp⟩
  | cons option rest ih =>
    cases option with
    | obj m =>
      unfold optionLabels at h
      split at h
      · cases h
      · obtain ⟨label, hlabel, h⟩ := except_bind_ok.mp h
        obtain ⟨description, hdescription, h⟩ := except_bind_ok.mp h
        obtain ⟨others, hothers, h⟩ := except_bind_ok.mp h
        obtain rfl := Except.ok.inj h
        obtain ⟨hlabels, hshown⟩ := ih hothers
        refine ⟨?_, List.forall_mem_cons.mpr ⟨⟨.of_ok hlabel, .of_ok hdescription⟩, hshown⟩⟩
        rw [List.map_cons, List.map_cons, hlabels]
        congr 1
        exact (requireTerminalSafeText_ok hlabel).1
    | _ => cases h

/-- What a validated card is known to show. -/
structure Validated (U : Categories) (card : Members) : Prop where
  texts : ∀ field ∈ textFields, IsShown U (get field card)
  facts : ∃ facts, get (lit "what_agent_already_verified") card = .arr facts
    ∧ ∀ fact ∈ facts, IsShown U fact
  artifacts : ∃ paths, get (lit "assumption_paths") card = .arr paths
    ∧ ∀ path ∈ paths, IsShown U path
  version : IsShown U (clientVersion card)
  days : ∃ days : Int, get (lit "valid_days") card = .int days ∧ 1 ≤ days
  labels : (optionTexts card).map Prod.fst = [.str (lit "A"), .str (lit "B")]
  options : ∀ option ∈ optionTexts card, IsShown U option.1 ∧ IsShown U option.2

/-- A card that is accepted has passed every check on its fields. -/
theorem validated_of_ok {card : Members} (h : validatedOwnerCard U C card = .ok ()) :
    Validated U card := by
  obtain ⟨u, htexts, h⟩ := except_bind_ok.mp h
  obtain ⟨u, hfacts, h⟩ := except_bind_ok.mp h
  obtain ⟨u, hoptions, h⟩ := except_bind_ok.mp h
  obtain ⟨u, hartifacts, h⟩ := except_bind_ok.mp h
  obtain ⟨u, hdays, h⟩ := except_bind_ok.mp h
  obtain ⟨u, hclient, -⟩ := except_bind_ok.mp h
  have hlabels : (optionTexts card).map Prod.fst = [.str (lit "A"), .str (lit "B")]
      ∧ ∀ option ∈ optionTexts card, IsShown U option.1 ∧ IsShown U option.2 := by
    unfold checkOptions at hoptions
    split at hoptions
    · next rows hrows =>
      split at hoptions
      · cases hoptions
      · obtain ⟨labels, hread, hoptions⟩ := except_bind_ok.mp hoptions
        obtain ⟨known, -, hoptions⟩ := except_bind_ok.mp hoptions
        split at hoptions
        · cases hoptions
        · next hknown =>
          rw [not_or, not_not] at hknown
          obtain ⟨hsame, hshown⟩ := optionLabels_ok hread
          unfold optionTexts
          rw [hrows]
          refine ⟨?_, ?_⟩
          · rw [List.map_map]
            exact hsame.trans (by rw [hknown.1]; rfl)
          · intro option hoption
            obtain ⟨row, hrow, rfl⟩ := List.mem_map.mp hoption
            exact hshown row hrow
    · cases hoptions
  refine ⟨checkTexts_ok htexts, ?_, ?_, ?_, ?_, hlabels.1, hlabels.2⟩
  · unfold checkVerified at hfacts
    split at hfacts
    · next facts heq =>
      split at hfacts
      · cases hfacts
      · exact ⟨facts, heq, checkFacts_ok hfacts⟩
    · cases hfacts
  · unfold checkArtifacts at hartifacts
    split at hartifacts
    · next paths heq =>
      split at hartifacts
      · cases hartifacts
      · obtain ⟨normalized, hnormalized, -⟩ := except_bind_ok.mp hartifacts
        exact ⟨paths, heq, assumptionPaths_ok hnormalized⟩
    · cases hartifacts
  · unfold checkOwnerClient at hclient
    split at hclient
    · next client heq =>
      split at hclient
      · cases hclient
      · obtain ⟨version, hversion, -⟩ := except_bind_ok.mp hclient
        unfold clientVersion
        rw [heq]
        exact .of_ok hversion
    · cases hclient
  · unfold checkValidity at hdays
    split at hdays
    · next days heq =>
      split at hdays
      · next hrange => exact ⟨days, heq, hrange.1⟩
      · cases hdays
    · cases hdays

/-! ## Reading the lines back -/

/-- An empty line behind a list ends it: it does not begin with a dash. -/
theorem bullets_inj {texts texts' rest rest' : List PyStr} (hend : rest.head? = some [])
    (hend' : rest'.head? = some [])
    (h : bullets texts ++ rest = bullets texts' ++ rest') : texts = texts' ∧ rest = rest' := by
  induction texts generalizing texts' with
  | nil =>
    cases texts' with
    | nil => exact ⟨rfl, h⟩
    | cons text' texts' =>
      rw [show bullets [] ++ rest = rest from rfl] at h
      rw [h] at hend
      exact absurd (Option.some.inj hend) (by simp [lit])
  | cons text texts ih =>
    cases texts' with
    | nil =>
      rw [show bullets [] ++ rest' = rest' from rfl] at h
      rw [← h] at hend'
      exact absurd (Option.some.inj hend') (by simp [lit])
    | cons text' texts' =>
      obtain ⟨hline, htail⟩ := List.cons.inj h
      obtain ⟨htexts, hrests⟩ := ih htail
      exact ⟨by rw [List.append_cancel_left hline, htexts], hrests⟩

theorem natText_inj {n m : Nat} (h : natText n = natText m) : n = m := by
  have hread : ∀ k, (natText k).filterMap digitVal? = decDigits k := by
    intro k
    rw [natText_eq, List.filterMap_map]
    have hdigits : ∀ d ∈ decDigits k, (digitVal? ∘ digitCp) d = some d := fun d hd =>
      digitVal?_digitCp (decDigits_lt hd)
    rw [List.filterMap_congr hdigits, List.filterMap_some]
  rw [← ofDigits_decDigits n, ← ofDigits_decDigits m, ← hread, ← hread, h]

/-- No character of the text breaks a line. -/
def Unbroken (s : PyStr) : Prop := ∀ c ∈ s, isLineBreak c = false

theorem Unbroken.append {s t : PyStr} (hs : Unbroken s) (ht : Unbroken t) : Unbroken (s ++ t) := by
  intro c hc
  rcases List.mem_append.mp hc with hc | hc
  · exact hs c hc
  · exact ht c hc

theorem unbroken_lit {s : String} (h : ((lit s).all fun c => !isLineBreak c) = true) :
    Unbroken (lit s) := by
  intro c hc
  simpa using List.all_eq_true.mp h c hc

theorem unbroken_natText (n : Nat) : Unbroken (natText n) := by
  intro c hc
  rw [natText_eq] at hc
  obtain ⟨d, hd, rfl⟩ := List.mem_map.mp hc
  have hval := digitCp_val (decDigits_lt hd)
  have hlt := decDigits_lt hd
  unfold isLineBreak
  rw [hval]
  simp only [Bool.or_eq_false_iff, Bool.and_eq_false_iff, decide_eq_false_iff_not,
    beq_eq_false_iff_ne, ne_eq]
  omega

theorem unbroken_bullets {values : List Json} (h : ∀ v ∈ values, IsShown U v) :
    ∀ line ∈ bullets (values.map shown), Unbroken line := by
  intro line hline
  obtain ⟨text, htext, rfl⟩ := List.mem_map.mp hline
  obtain ⟨v, hv, rfl⟩ := List.mem_map.mp htext
  exact (unbroken_lit (by decide)).append (h v hv).unbroken

/-- Every line of a validated card is one line. -/
theorem Validated.unbroken {card : Members} (h : Validated U card) :
    ∀ line ∈ cardLines card, Unbroken line := by
  have htext : ∀ field ∈ textFields, Unbroken (shown (get field card)) := fun field hfield =>
    (h.texts field hfield).unbroken
  have hempty : Unbroken [] := by simp [Unbroken]
  have htop : ∀ line ∈ topLines card, Unbroken line := by
    simp only [topLines, List.forall_mem_cons]
    exact ⟨unbroken_lit (by decide), (unbroken_lit (by decide)).append (htext _ (by decide)),
      (unbroken_lit (by decide)).append (htext _ (by decide)), hempty, unbroken_lit (by decide),
        htext _ (by decide),
      hempty, unbroken_lit (by decide), by simp⟩
  have hscope : ∀ line ∈ scopeLines card, Unbroken line := by
    simp only [scopeLines, List.forall_mem_cons]
    exact ⟨hempty, unbroken_lit (by decide), htext _ (by decide), hempty,
      unbroken_lit (by decide), by simp⟩
  have hdays : Unbroken (shownDays (get (lit "valid_days") card)) := by
    obtain ⟨days, hdays, hpositive⟩ := h.days
    rw [hdays]
    unfold shownDays intText
    dsimp only
    rw [if_neg (by omega)]
    exact unbroken_natText _
  have hidentity : ∀ line ∈ identityLines card, Unbroken line := by
    simp only [identityLines, List.forall_mem_cons]
    exact ⟨hempty, (unbroken_lit (by decide)).append (htext _ (by decide)),
      (unbroken_lit (by decide)).append (htext _ (by decide)),
        (unbroken_lit (by decide)).append (htext _ (by decide)),
      ((unbroken_lit (by decide)).append h.version.unbroken).append (unbroken_lit (by decide)),
      ((unbroken_lit (by decide)).append hdays).append (unbroken_lit (by decide)), hempty,
        unbroken_lit (by decide),
      by simp⟩
  have hoptions : ∀ line ∈ (items (get (lit "options") card)).map optionLine, Unbroken line := by
    intro line hline
    obtain ⟨option, hoption, rfl⟩ := List.mem_map.mp hline
    obtain ⟨hlabel, hdescription⟩ := h.options _ (List.mem_map_of_mem hoption)
    exact (((unbroken_lit (by decide)).append hlabel.unbroken).append
      (unbroken_lit (by decide))).append
      hdescription.unbroken
  have hbottom : ∀ line ∈ bottomLines card, Unbroken line := by
    simp only [bottomLines, List.forall_mem_cons]
    exact ⟨hempty, (unbroken_lit (by decide)).append (htext _ (by decide)),
      htext _ (by decide), hempty,
      (unbroken_lit (by decide)).append (htext _ (by decide)), hempty,
        unbroken_lit (by decide), by simp⟩
  obtain ⟨facts, hfacts, hshownFacts⟩ := h.facts
  obtain ⟨paths, hpaths, hshownPaths⟩ := h.artifacts
  unfold cardLines
  rw [hfacts, hpaths]
  simp only [List.forall_mem_append]
  exact ⟨⟨htop, unbroken_bullets hshownFacts⟩, ⟨hscope, unbroken_bullets hshownPaths⟩,
    ⟨hidentity, hoptions⟩, hbottom⟩

theorem Validated.length_options {card : Members} (h : Validated U card) :
    (items (get (lit "options") card)).length = 2 := by
  have hlength := congrArg List.length h.labels
  unfold optionTexts at hlength
  rw [List.length_map, List.length_map] at hlength
  exact hlength

/-- The line of an option, by its texts. -/
def pairLine (option : Json × Json) : PyStr := lit "[" ++ shown option.1 ++ lit "] "
    ++ shown option.2

theorem optionLines_eq (card : Members) :
    (items (get (lit "options") card)).map optionLine = (optionTexts card).map pairLine := by
  unfold optionTexts
  rw [List.map_map]
  rfl

/-- A card has two options, and each has a text. -/
theorem Validated.exists_options {card : Members} (h : Validated U card) : ∃ a b : PyStr,
    optionTexts card = [(.str (lit "A"), .str a), (.str (lit "B"), .str b)] := by
  have hlabels := h.labels
  have hshown := h.options
  generalize optionTexts card = options at hlabels hshown ⊢
  obtain ⟨⟨label, a⟩, rest, rfl⟩ := List.exists_cons_of_ne_nil (l := options)
    (by rintro rfl; cases hlabels)
  obtain ⟨hlabel, hrest⟩ := List.cons.inj hlabels
  obtain ⟨⟨label', b⟩, rest', rfl⟩ := List.exists_cons_of_ne_nil (l := rest)
    (by rintro rfl; cases hrest)
  obtain ⟨hlabel', hrest'⟩ := List.cons.inj hrest
  obtain rfl := List.map_eq_nil_iff.mp hrest'
  have ha := (hshown (label, a) (List.mem_cons_self ..)).2.eq
  have hb := (hshown (label', b) (List.mem_cons_of_mem _ (List.mem_cons_self ..))).2.eq
  dsimp only at hlabel hlabel' ha hb
  refine ⟨shown a, shown b, ?_⟩
  rw [hlabel, hlabel', ← ha, ← hb]

/-- The lines show all there is to see. -/
theorem showSame_of_lines {card card' : Members} (h : Validated U card) (h' : Validated U card')
    (hlines : cardLines card = cardLines card') : ShowSame card card' := by
  have hfield : ∀ {v v' : Json}, IsShown U v → IsShown U v' → shown v = shown v' → v = v' := by
    intro v v' hv hv' hsame
    rw [hv.eq, hv'.eq, hsame]
  have hlist : ∀ {xs xs' : List Json}, (∀ x ∈ xs, IsShown U x) → (∀ x ∈ xs', IsShown U x) →
      xs.map shown = xs'.map shown → xs = xs' := by
    intro xs
    induction xs with
    | nil =>
      intro xs' _ _ hsame
      exact (List.map_eq_nil_iff.mp hsame.symm).symm
    | cons x xs ih =>
      intro xs' hxs hxs' hsame
      cases xs' with
      | nil => cases hsame
      | cons x' xs' =>
        obtain ⟨hx, hrest⟩ := List.cons.inj hsame
        rw [hfield (hxs x (List.mem_cons_self ..)) (hxs' x' (List.mem_cons_self ..)) hx,
          ih (fun y hy => hxs y (List.mem_cons_of_mem _ hy))
            (fun y hy => hxs' y (List.mem_cons_of_mem _ hy)) hrest]
  obtain ⟨facts, hfactsEq, hshownFacts⟩ := h.facts
  obtain ⟨facts', hfactsEq', hshownFacts'⟩ := h'.facts
  obtain ⟨paths, hpathsEq, hshownPaths⟩ := h.artifacts
  obtain ⟨paths', hpathsEq', hshownPaths'⟩ := h'.artifacts
  -- the lines are cut at the ends of the two lists
  simp only [cardLines, List.append_assoc] at hlines
  obtain ⟨htop, hlines⟩ := List.append_inj hlines rfl
  obtain ⟨hfacts, hlines⟩ := bullets_inj rfl rfl hlines
  obtain ⟨hscope, hlines⟩ := List.append_inj hlines rfl
  obtain ⟨hartifacts, hlines⟩ := bullets_inj rfl rfl hlines
  obtain ⟨hidentity, hlines⟩ := List.append_inj hlines rfl
  obtain ⟨hoptions, hbottom⟩ := List.append_inj hlines (by
    rw [List.length_map, List.length_map, h.length_options, h'.length_options])
  simp only [topLines, scopeLines, identityLines, bottomLines, List.cons.injEq,
    List.append_cancel_left_eq,
    List.append_cancel_right_eq, true_and, and_true] at htop hscope hidentity hbottom
  have htext : ∀ field ∈ textFields, shown (get field card) = shown (get field card') →
    get field card = get field card' :=
    fun field hmem hsame => hfield (h.texts field hmem) (h'.texts field hmem) hsame
  refine ⟨?_, ?_, ?_, ?_, ?_, ?_⟩
  · simp only [shownFields, List.map_cons, List.map_nil, List.forall_mem_cons]
    exact ⟨htext _ (by decide) htop.1, htext _ (by decide) htop.2.1, htext _ (by decide) htop.2.2,
      htext _ (by decide) hscope, htext _ (by decide) hidentity.1,
        htext _ (by decide) hidentity.2.1,
      htext _ (by decide) hidentity.2.2.1, htext _ (by decide) hbottom.1,
        htext _ (by decide) hbottom.2.1,
      htext _ (by decide) hbottom.2.2, by simp⟩
  · rw [hfactsEq, hfactsEq'] at hfacts ⊢
    rw [hlist hshownFacts hshownFacts' hfacts]
  · rw [hpathsEq, hpathsEq'] at hartifacts ⊢
    rw [hlist hshownPaths hshownPaths' hartifacts]
  · exact hfield h.version h'.version hidentity.2.2.2.1
  · obtain ⟨days, hdays, hpositive⟩ := h.days
    obtain ⟨days', hdays', hpositive'⟩ := h'.days
    have hsame := hidentity.2.2.2.2
    rw [hdays, hdays'] at hsame ⊢
    unfold shownDays intText at hsame
    dsimp only at hsame
    rw [if_neg (by omega), if_neg (by omega)] at hsame
    have habs := natText_inj hsame
    rw [show days = days' by omega]
  · obtain ⟨a, b, htexts⟩ := h.exists_options
    obtain ⟨a', b', htexts'⟩ := h'.exists_options
    rw [optionLines_eq, optionLines_eq, htexts, htexts'] at hoptions
    obtain ⟨hfirst, hsecond⟩ := List.cons.inj hoptions
    have ha : a = a' := List.append_cancel_left hfirst
    have hb : b = b' := List.append_cancel_left (List.cons.inj hsecond).1
    rw [htexts, htexts', ha, hb]

/-! ## The card -/

theorem splitOnP_terminated {lines : List PyStr} (h : ∀ line ∈ lines, Unbroken line) :
    (terminated lf lines).splitOnP isLineBreak = lines ++ [[]] := by
  induction lines with
  | nil => rfl
  | cons line lines ih =>
    have hrest := ih fun l hl => h l (List.mem_cons_of_mem _ hl)
    unfold terminated at hrest ⊢
    rw [List.flatMap_cons, List.append_assoc, List.singleton_append,
      List.splitOnP_append_cons_of_forall_mem (h line (List.mem_cons_self ..)) lf (by rfl), hrest]
    rfl

/-- A text of unbroken lines has these lines. -/
theorem splitLines_terminated {lines : List PyStr} (h : ∀ line ∈ lines, Unbroken line) :
    splitLines (terminated lf lines) = lines := by
  have hjoin : joinCrlf (terminated lf lines) = terminated lf lines := by
    apply joinCrlf_eq_self
    intro c hc
    rcases mem_terminated hc with rfl | ⟨line, hline, hc⟩
    · decide
    · intro hreturn
      have hbreak := h line hline c hc
      simp [isLineBreak, hreturn] at hbreak
  unfold splitLines dropEmptyLast
  rw [hjoin, splitOnP_terminated h, List.getLast?_concat]
  dsimp only
  rw [List.dropLast_concat]

theorem renderProductApprovalCard_ok {card : Members} {text : PyStr}
    (h : renderProductApprovalCard U C card = .ok text) :
    Validated U card ∧ text = terminated lf (cardLines card) := by
  obtain ⟨u, hvalidated, h⟩ := except_bind_ok.mp h
  obtain ⟨u', hsize, h⟩ := except_bind_ok.mp h
  exact ⟨validated_of_ok hvalidated, (Except.ok.inj h).symm⟩

/-- The number of verified facts and that of contract artifacts. -/
def itemCount (card : Members) (field : String) : Nat := (items (get (lit field) card)).length

theorem Validated.length_lines {card : Members} (h : Validated U card) : (cardLines card).length
    = itemCount card "what_agent_already_verified" + itemCount card "assumption_paths" + 30 := by
  unfold cardLines itemCount bullets
  simp only [List.length_append, List.length_map, h.length_options, topLines, scopeLines,
    identityLines, bottomLines,
    List.length_cons, List.length_nil]
  omega

/-- The card is unambiguous: cards that do not show the same have different texts, and the number of
lines is that of the facts and the artifacts and thirty more. -/
theorem card_unambiguous {card card' : Members} {text text' : PyStr}
    (h : renderProductApprovalCard U C card = .ok text)
    (h' : renderProductApprovalCard U C card' = .ok text') :
    (¬ ShowSame card card' → text ≠ text') ∧ (splitLines text).length
      = itemCount card "what_agent_already_verified" + itemCount card "assumption_paths" + 30 := by
  obtain ⟨hvalidated, rfl⟩ := renderProductApprovalCard_ok h
  obtain ⟨hvalidated', rfl⟩ := renderProductApprovalCard_ok h'
  constructor
  · intro hdiffer hsame
    have hlines := congrArg splitLines hsame
    rw [splitLines_terminated hvalidated.unbroken, splitLines_terminated hvalidated'.unbroken]
      at hlines
    exact hdiffer (showSame_of_lines hvalidated hvalidated' hlines)
  · rw [splitLines_terminated hvalidated.unbroken, hvalidated.length_lines]

/-- Hidden is what breaks a line. -/
def breaksHidden : Categories := ⟨isLineBreak, fun _ h => h⟩

/-- Two files of the client, the first of them empty. -/
def sampleFiles : List Json :=
  [("sddgov/a.py", 0xe3b0c44298fc1c149afbf4c8996fb92427ae41e4649b934ca495991b7852b855),
    ("sddgov/b.py", 0xd8594fa1268ecabc62af7c9e2449b8c46db0f426cd9aad384c67efe59e582b3e)].map
      fun file =>
      .obj [(lit "path", .str (lit file.1)), (lit "sha256", .str (hexDigest file.2))]

/-- The digest of the two rows. -/
def sampleFilesDigest : Nat := 0x4d228837fb9d3447fbb66367636651070573d85477b9fe4ba69d126027ed36cb

def cardCrypto : Crypto := .ofTables [(canonicalBytes (.arr sampleFiles), sampleFilesDigest)] []

/-- A card with this reason for its urgency, these facts and these artifacts. -/
def sampleCard (impact : String) (facts artifacts : List String) : Members :=
  (["heading", "decision_id", "risk_level", "why_human_input_is_required", "why",
    "scope_of_approval", "approver_id",
    "repository_id", "trust_domain"].map fun field => (lit field, .str (lit field)))
  ++ [(lit "recommended", .str (lit "A")), (lit "impact_if_no_decision", .str (lit impact)),
    (lit "what_agent_already_verified", .arr (facts.map fun fact => .str (lit fact))),
    (lit "options", .arr (["A", "B"].map fun label =>
      .obj [(lit "label", .str (lit label)), (lit "description", .str (lit "x"))])),
    (lit "assumption_paths", .arr (artifacts.map fun path => .str (lit path))),
      (lit "valid_days", .int 7),
    (lit "owner_client", .obj [(lit "version", .str (lit "1")),
      (lit "source_files", .arr sampleFiles),
      (lit "source_sha256", .str (hexDigest sampleFilesDigest))]),
    (lit "approver_key_sha256",
      .str (hexDigest 0x66687aadf862bd776c8fc18b8e9f8e20089714856ee233b3902a591d0d5f2925))]

/-- Two facts and two artifacts. -/
def waitingCard : Members := sampleCard "wait" ["tests", "review"] ["a.json", "b.json"]

/-- One fact, which is the two of the other card in one line, and three artifacts. -/
def stoppingCard : Members := sampleCard "stop" ["tests, review"] ["a.json", "b.json", "c.json"]

theorem sampleCards_rendered :
    ([waitingCard, stoppingCard].all fun card =>
      (renderProductApprovalCard breaksHidden cardCrypto card).isOk)
      = true := by
  decide +kernel

theorem sampleCards_differ : ¬ ShowSame waitingCard stoppingCard := by
  intro hsame
  have himpact := hsame.texts (lit "impact_if_no_decision") (by decide)
  revert himpact
  decide

/-- The two cards have different texts, of as many lines as they have facts and artifacts, and
thirty. -/
theorem card_unambiguous_sample : ∃ text text',
    renderProductApprovalCard breaksHidden cardCrypto waitingCard = .ok text ∧
    renderProductApprovalCard breaksHidden cardCrypto stoppingCard = .ok text' ∧
    text ≠ text' ∧ (splitLines text).length = 34 := by
  have hrendered := List.all_eq_true.mp sampleCards_rendered
  obtain ⟨text, htext⟩ := exists_of_isOk (hrendered waitingCard (by simp))
  obtain ⟨text', htext'⟩ := exists_of_isOk (hrendered stoppingCard (by simp))
  have hcards := card_unambiguous htext htext'
  exact ⟨text, text', htext, htext', hcards.1 sampleCards_differ, hcards.2⟩

end SddGov.Owner
