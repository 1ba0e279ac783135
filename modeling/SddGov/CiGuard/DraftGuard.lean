import SddGov.Actions.Expression
import SddGov.Python.Strip

/-!
# The draft guard of the workflow check

`inspect_workflow` wants every job of a pull-request workflow to skip drafts and
reads the job's condition with `_draft_condition_is_safe`: whitespace is deleted
from the text, which then has to be one fixed disjunction or a conjunction of
simple comparisons, the draft comparison among them. The expression language is
`SddGov.Actions`; the question is what an accepted text means there.

The conjunctions are sound (`conjunction_sound`). The disjunction is accepted
with whitespace inside the quoted event name too, and then it compares the event
with a name no event has: the guard is sound exactly on the other conditions
(`draft_condition_sound_iff`).
-/

namespace SddGov.CiGuard

open SddGov.Python SddGov.Actions

/-! ## The check -/

/-- `s.split(sep)`: `skip` characters of a separator are still to be passed over. -/
def splitFrom (sep : PyStr) : Nat → PyStr → List PyStr
  | _, [] => [[]]
  | skip + 1, _ :: s => splitFrom sep skip s
  | 0, c :: s =>
    if sep.isPrefixOf (c :: s) then [] :: splitFrom sep (sep.length - 1) s
    else (splitFrom sep 0 s).modifyHead (c :: ·)

/-- `s.split(sep)` -/
def splitText (sep s : PyStr) : List PyStr := splitFrom sep 0 s

/-- `[A-Za-z_][A-Za-z0-9_]*` -/
def isIdentifier : PyStr → Bool
  | [] => false
  | c :: s => isNameStart c && s.all fun d => isNameStart d || isDigit d

/-- `'[^'\\\r\n]*'`, and the same with double quotes. -/
def isQuoted (q : CodePoint) : PyStr → Bool
  | [] => false
  | c :: s =>
    c == q && s.getLast? == some q
      && s.dropLast.all fun d => d != q && d.val != 0x5C && d.val != 0x0D && d.val != 0x0A

/-- `-?[0-9]+` -/
def isInteger (s : PyStr) : Bool :=
  let digits := if s.head? = some (cp 0x2D) then s.drop 1 else s
  !digits.isEmpty && digits.all isDigit

def doubleQuote : CodePoint := cp 0x22

/-- The right side of an atom. -/
def isAtomLiteral (s : PyStr) : Bool :=
  isQuoted quote s || isQuoted doubleQuote s || isInteger s || s == lit "true" || s == lit "false"

/-- The characters of the property path an atom starts with. -/
def isPathChar (c : CodePoint) : Bool := isNameStart c || isDigit c || c.val == 0x2E

/-- `_SIMPLE_CONJUNCTION_ATOM.fullmatch(atom)`. The path takes every character
it can, since the operator starts with none of them. -/
def simpleConjunctionAtom (atom : PyStr) : Bool :=
  let rest := atom.dropWhile isPathChar
  (match (atom.takeWhile isPathChar).splitOn (cp 0x2E) with
    | head :: name :: names => head == lit "github" && (name :: names).all isIdentifier
    | _ => false)
  && ((lit "==").isPrefixOf rest || (lit "!=").isPrefixOf rest)
  && isAtomLiteral (rest.drop 2)

def draftFalseAtom : PyStr := lit "github.event.pull_request.draft==false"

/-- The text of the condition without its mark and without whitespace. -/
def compact (condition : PyStr) : PyStr :=
  let expression := strip condition
  dropSpaces (if isMarked expression then strip (marked expression) else expression)

/-- The two spellings of the guarding disjunction. -/
def acceptedConditions (eventName : PyStr) : List PyStr :=
  [lit "github.event_name!='" ++ eventName ++ lit "'||" ++ draftFalseAtom,
    lit "github.event_name!=\"" ++ eventName ++ lit "\"||" ++ draftFalseAtom]

def requiredEventAtoms (eventName : PyStr) : List PyStr :=
  [lit "github.event_name=='" ++ eventName ++ lit "'",
    lit "github.event_name==\"" ++ eventName ++ lit "\""]

/-- `_draft_condition_is_safe` for a set of event names. -/
def draftConditionIsSafe (condition : Json) (eventNames : List PyStr) : Bool :=
  match condition, eventNames with
  | .str text, [eventName] =>
    let c := compact text
    if (acceptedConditions eventName).contains c then true
    else if lit "||" <:+: c ∨ lit "(" <:+: c ∨ lit ")" <:+: c then false
    else
      let atoms := splitText (lit "&&") c
      2 ≤ atoms.length && atoms.contains draftFalseAtom
        && ((requiredEventAtoms eventName).any fun a => atoms.contains a)
        && atoms.all simpleConjunctionAtom
  | _, _ => false

/-- The events `_inspect_workflow` asks about. -/
def pullRequestEvents : List PyStr := [lit "pull_request", lit "pull_request_target"]

/-! ## What the guard is for -/

/-- A run that event `e` starts for a pull request that is a draft. -/
structure DraftRun {N : Type} (ctx : Context N) (e : PyStr) : Prop where
  event : ctx [lit "github", lit "event_name"] = some (.string e)
  draft : ctx [lit "github", lit "event", lit "pull_request", lit "draft"] = some (.bool true)

/-- No draft run of event `e` meets the condition. -/
def SkipsDrafts {N : Type} (host : Host N) (condition e : PyStr) : Prop :=
  ∀ ctx : Context N, DraftRun ctx e →
    ∀ v, value host ctx (ifExpression condition) = some v → isTruthy host v = false

/-- The tokens of a property path. -/
def pathTokens : List PyStr → List Token
  | [] => []
  | [n] => [.name n]
  | n :: m :: rest => .name n :: .dot :: pathTokens (m :: rest)

/-- `github.event.pull_request.draft == false` -/
def draftFalseTokens : List Token :=
  pathTokens [lit "github", lit "event", lit "pull_request", lit "draft"]
    ++ [.eq, .name (lit "false")]

/-- `github.event_name != 'w' || github.event.pull_request.draft == false` -/
def guardTokens (w : PyStr) : List Token :=
  pathTokens [lit "github", lit "event_name"] ++ [.ne, .string w, .or] ++ draftFalseTokens

/-- The condition is the guarding disjunction with whitespace inside the quotes
of its event name. -/
def SpacedEventName (condition e : PyStr) : Prop :=
  ∃ w, w ≠ e ∧ dropSpaces w = e ∧ tokens (ifExpression condition) = some (guardTokens w)

/-! ## The compact text -/

theorem dropSpaces_eq_nil {s : PyStr} (h : ∀ c ∈ s, isSpace c = true) : dropSpaces s = [] := by
  apply List.filter_eq_nil_iff.mpr
  intro c hc
  simp [h c hc]

theorem trimGaps_spec (s : PyStr) :
    ∃ a b, s = a ++ trimGaps s ++ b ∧ (∀ c ∈ a, isSpace c = true) ∧ ∀ c ∈ b, isSpace c = true := by
  refine ⟨s.takeWhile isGap, ((s.dropWhile isGap).reverse.takeWhile isGap).reverse, ?_, ?_, ?_⟩
  · unfold trimGaps
    rw [List.append_assoc, ← List.reverse_append, List.takeWhile_append_dropWhile,
      List.reverse_reverse,
      List.takeWhile_append_dropWhile]
  · intro c hc
    exact isSpace_of_isGap (List.mem_takeWhile_imp hc)
  · intro c hc
    exact isSpace_of_isGap (List.mem_takeWhile_imp (List.mem_reverse.mp hc))

theorem dropSpaces_middle {a s b : PyStr} (ha : ∀ c ∈ a, isSpace c = true)
    (hb : ∀ c ∈ b, isSpace c = true) :
    dropSpaces (a ++ s ++ b) = dropSpaces s := by
  rw [dropSpaces_append, dropSpaces_append, dropSpaces_eq_nil ha, dropSpaces_eq_nil hb,
    List.append_nil]
  rfl

theorem dropSpaces_strip (s : PyStr) : dropSpaces (strip s) = dropSpaces s := by
  obtain ⟨a, b, hs, ha, hb⟩ := strip_spec s
  rw [← dropSpaces_middle ha hb, ← hs]

theorem dropSpaces_trimGaps (s : PyStr) : dropSpaces (trimGaps s) = dropSpaces s := by
  obtain ⟨a, b, hs, ha, hb⟩ := trimGaps_spec s
  rw [← dropSpaces_middle ha hb, ← hs]

/-- A marked text is one between the marks. -/
theorem isMarked_eq {s : PyStr} (h : isMarked s = true) :
    ∃ inner, s = lit "$\x7b\x7b" ++ inner ++ lit "\x7d\x7d" := by
  simp only [isMarked, Bool.and_eq_true, List.isPrefixOf_iff_prefix, List.isSuffixOf_iff_suffix]
    at h
  obtain ⟨⟨t, ht⟩, ⟨u, hu⟩⟩ := h
  -- the two marks share no character, so they do not overlap
  rcases List.append_eq_append_iff.mp (ht.trans hu.symm) with ⟨v, huv, hv⟩ | ⟨v, huv, hv⟩
  · exact ⟨v, by rw [← huv, hu]⟩
  · have hlast : (lit "$\x7b\x7b").getLast? = ((u ++ v).getLast?) := congrArg List.getLast? huv
    cases v with
    | nil =>
      refine ⟨[], ?_⟩
      rw [← hu]
      simpa using huv.symm
    | cons c v =>
      have hmem : (c : CodePoint) ∈ lit "\x7d\x7d" := by rw [hv]; simp
      have hmem' : c ∈ lit "$\x7b\x7b" := by rw [huv]; simp
      have hclose : c = cp 0x7D := by simpa [lit] using hmem
      have hopen : cp 0x7D ∉ lit "$\x7b\x7b" := by decide
      exact absurd (hclose ▸ hmem') hopen

/-- Stripping a marked text leaves no gap. -/
theorem strip_of_marked {condition : PyStr} (h : isMarked (trimGaps condition) = true) :
    strip condition = trimGaps condition := by
  obtain ⟨a, b, hs, ha, hb⟩ := trimGaps_spec condition
  obtain ⟨inner, hinner⟩ := isMarked_eq h
  have htrimmed : Trimmed (trimGaps condition) := by
    refine ⟨⟨cp 0x24, lit "\x7b\x7b" ++ inner ++ lit "\x7d\x7d", ?_, rfl⟩,
      ⟨lit "$\x7b\x7b" ++ inner ++ lit "\x7d", cp 0x7D, ?_, rfl⟩⟩
    · rw [hinner]
      rfl
    · rw [hinner, List.append_assoc _ (lit "\x7d")]
      rfl
  have hlead : strip (a ++ (trimGaps condition ++ b)) = strip (trimGaps condition ++ b) := by
    unfold strip
    rw [List.dropWhile_append_of_pos ha]
  calc strip condition = strip (a ++ (trimGaps condition ++ b)) := by rw [← List.append_assoc, ← hs]
    _ = trimGaps condition := hlead.trans (strip_append htrimmed hb)

/-- No expression starts with the mark. -/
theorem lexFrom_mark (s : PyStr) : lexFrom .start (lit "$\x7b\x7b" ++ s) = none :=
  lexFrom_bad (c := cp 0x24) (lit "\x7b\x7b" ++ s) rfl rfl

/-- What the check reads is the expression without its whitespace, for every
condition that has an expression. -/
theorem compact_eq {condition : PyStr} {ts : List Token} (h : Spelled (ifExpression condition) ts) :
    compact condition = dropSpaces (ifExpression condition) := by
  unfold compact ifExpression at *
  by_cases hmark : isMarked (trimGaps condition) = true
  · simp only [strip_of_marked hmark, hmark, if_true, dropSpaces_strip]
  · simp only [if_neg hmark] at h ⊢
    by_cases hpy : isMarked (strip condition) = true
    · -- the separators U+001C to U+001F around a mark: they are stripped here, but are no gaps
      obtain ⟨inner, hinner⟩ := isMarked_eq hpy
      have hdrop : dropSpaces (trimGaps condition)
          = tokensText [] ++ (lit "$\x7b\x7b" ++ dropSpaces (inner ++ lit "\x7d\x7d")) := by
        rw [dropSpaces_trimGaps, ← dropSpaces_strip, hinner, List.append_assoc, dropSpaces_append]
        rfl
      exact absurd hdrop (h.not_prefix (by simp) rfl (by simp) (lexFrom_mark _))
    · simp only [if_neg hpy]
      rw [dropSpaces_strip, dropSpaces_trimGaps]

/-! ## Atoms and their tokens -/

/-- Tokens that can be joined to others by `&&`: they start and end with an operand. -/
structure Clause (ts : List Token) : Prop where
  wellFormed : ∀ t ∈ ts, t.WellFormed
  fit : neighboursFit ts = true
  first : ts.head?.any Token.isOperand = true
  last : ts.getLast?.any Token.isOperand = true

/-- Two token lists fit together if they do where they meet. -/
theorem neighboursFit_append {ts us : List Token} (hts : neighboursFit ts = true)
    (hus : neighboursFit us = true)
    (h : ∀ a ∈ ts.getLast?, ∀ b ∈ us.head?, follows a b = true) :
    neighboursFit (ts ++ us) = true := by
  induction ts with
  | nil => exact hus
  | cons a ts ih =>
    cases ts with
    | nil =>
      cases us with
      | nil => rfl
      | cons b us =>
        have hab : follows a b = true := h a (by simp) b (by simp)
        simp [neighboursFit, hab, hus]
    | cons b ts =>
      simp only [neighboursFit, Bool.and_eq_true] at hts
      have hrest := ih hts.2 (by simpa using h)
      simp only [List.cons_append] at hrest ⊢
      rw [neighboursFit, hts.1, hrest]
      rfl

theorem follows_operator {a op : Token} (ha : a.isOperand = true)
    (hop : op ∈ [Token.eq, .ne, .and, .or]) :
    follows a op = true ∧ follows op a = true := by
  simp only [List.mem_cons, List.not_mem_nil, or_false] at hop
  rcases hop with rfl | rfl | rfl | rfl <;> cases a
    <;> first | exact ⟨rfl, rfl⟩ | exact absurd ha (by decide)

/-- A clause, an operator, and more tokens that start with an operand fit. -/
theorem Clause.append {ts us : List Token} {op : Token} (hts : Clause ts)
    (hop : op ∈ [Token.eq, .ne, .and, .or])
    (hfit : neighboursFit us = true) (hfirst : us.head?.any Token.isOperand = true) :
    neighboursFit (ts ++ op :: us) = true := by
  apply neighboursFit_append hts.fit
  · cases us with
    | nil => rfl
    | cons b us =>
      have hb : follows op b = true := (follows_operator (by simpa using hfirst) hop).2
      simp [neighboursFit, hb, hfit]
  · intro a ha b hb
    obtain rfl := Option.some.inj hb
    have hlast := hts.last
    rw [Option.mem_def.mp ha] at hlast
    exact (follows_operator hlast hop).1

theorem isName_of_isIdentifier {n : PyStr} (h : isIdentifier n = true) : isName n = true := by
  cases n with
  | nil => exact h
  | cons c s =>
    simp only [isIdentifier, isName, Bool.and_eq_true, List.all_eq_true] at h ⊢
    refine ⟨h.1, fun d hd => ?_⟩
    unfold isNameChar
    rw [h.2 d hd, Bool.true_or]

/-- The text of a path is its names with dots between them. -/
theorem pathTokens_text (names : List PyStr) :
    tokensText (pathTokens names) = [cp 0x2E].intercalate names := by
  induction names with
  | nil => rfl
  | cons n names ih =>
    cases names with
    | nil => simp [pathTokens, tokensText, Token.text]
    | cons m rest =>
      have hcons : tokensText (pathTokens (n :: m :: rest)) = n ++ [cp 0x2E]
        ++ tokensText (pathTokens (m :: rest)) := by
        simp only [pathTokens, tokensText, List.flatMap_cons, Token.text, List.append_assoc]
        rfl
      rw [hcons, ih]
      simp [List.intercalate]

/-- A path of names is one clause of a condition, since no `&&` is among its tokens. -/
theorem pathTokens_clause {n : PyStr} {names : List PyStr} (h : ∀ m ∈ n :: names, isName m = true) :
    Clause (pathTokens (n :: names)) ∧ ∀ t ∈ pathTokens (n :: names), t ≠ .and := by
  induction names generalizing n with
  | nil =>
    have hn : isName n = true := h n (by simp)
    refine ⟨⟨?_, rfl, rfl, rfl⟩, ?_⟩ <;> simp [pathTokens, Token.WellFormed, hn]
  | cons m rest ih =>
    obtain ⟨hn, hrest⟩ := List.forall_mem_cons.mp h
    obtain ⟨hclause, hand⟩ := ih hrest
    have hdef : pathTokens (n :: m :: rest) = .name n :: .dot :: pathTokens (m :: rest) := rfl
    have hhead : ∃ us, pathTokens (m :: rest) = .name m :: us := by
      cases rest <;> exact ⟨_, rfl⟩
    obtain ⟨us, hus⟩ := hhead
    rw [hdef]
    refine ⟨⟨?_, ?_, rfl, ?_⟩, ?_⟩
    · exact List.forall_mem_cons.mpr ⟨hn, List.forall_mem_cons.mpr ⟨trivial, hclause.wellFormed⟩⟩
    · have hfit := hclause.fit
      rw [hus] at hfit ⊢
      simp [neighboursFit, follows, hfit]
    · have hlast := hclause.last
      rw [hus] at hlast ⊢
      simpa using hlast
    · exact List.forall_mem_cons.mpr ⟨by simp, List.forall_mem_cons.mpr ⟨by simp, hand⟩⟩

/-- The token on the right side of an atom, unless that starts with a double quote. -/
theorem atomLiteral_token {s : PyStr} (h : isAtomLiteral s = true) :
    (∃ t : Token, t.WellFormed ∧ t.isOperand = true ∧ t.text = s)
    ∨ ∃ rest, s = doubleQuote :: rest := by
  simp only [isAtomLiteral, Bool.or_eq_true, beq_iff_eq] at h
  rcases h with (((h | h) | h) | h) | h
  · left
    cases s with
    | nil => exact absurd h (by simp [isQuoted])
    | cons c s =>
      simp only [isQuoted, Bool.and_eq_true, beq_iff_eq, List.all_eq_true] at h
      obtain ⟨⟨rfl, hlast⟩, hall⟩ := h
      refine ⟨.string s.dropLast, trivial, rfl, ?_⟩
      have hquoted : ∀ {w : PyStr}, (∀ d ∈ w, d ≠ quote) → quoted w = w := by
        intro w hw
        induction w with
        | nil => rfl
        | cons d w ih =>
          obtain ⟨hd, hw⟩ := List.forall_mem_cons.mp hw
          have hcons : quoted (d :: w) = quoted [d] ++ quoted w := quoted_append [d] w
          rw [hcons, ih hw]
          simp [quoted, hd]
      have hinner : quoted s.dropLast = s.dropLast := by
        apply hquoted
        intro d hd
        have hd' := hall d hd
        simp only [bne_iff_ne] at hd'
        exact hd'.1.1.1
      show quote :: (quoted s.dropLast ++ [quote]) = quote :: s
      rw [hinner, List.dropLast_append_getLast? quote hlast]
  · right
    cases s with
    | nil => exact absurd h (by simp [isQuoted])
    | cons c s =>
      simp only [isQuoted, Bool.and_eq_true, beq_iff_eq] at h
      exact ⟨s, by rw [h.1.1]⟩
  · left
    refine ⟨.number s, ?_, rfl, rfl⟩
    have hdigit : ∀ {d : CodePoint}, isDigit d = true → isNumberStart d = true
      ∧ isNumberChar d = true := by
      intro d hd
      simp [isNumberChar, isNumberStart, hd]
    unfold isInteger at h
    cases s with
    | nil => exact absurd h (by simp)
    | cons c s =>
      by_cases hc : c = cp 0x2D
      · simp only [hc, List.head?_cons, if_true, List.drop_succ_cons, List.drop_zero,
          Bool.and_eq_true,
          List.all_eq_true] at h
        simp only [Token.WellFormed, isNumber, Bool.and_eq_true, List.all_eq_true]
        exact ⟨by rw [hc]; rfl, fun d hd => (hdigit (h.2 d hd)).2⟩
      · simp only [List.head?_cons, Option.some.injEq, if_neg hc, Bool.and_eq_true,
          List.all_eq_true] at h
        obtain ⟨hfirst, hrest⟩ := List.forall_mem_cons.mp h.2
        simp only [Token.WellFormed, isNumber, Bool.and_eq_true, List.all_eq_true]
        exact ⟨(hdigit hfirst).1, fun d hd => (hdigit (hrest d hd)).2⟩
  · exact .inl ⟨.name s, by rw [h]; rfl, rfl, rfl⟩
  · exact .inl ⟨.name s, by rw [h]; rfl, rfl, rfl⟩

/-- Tokens after which a text goes on with a double quote. -/
structure Broken (s : PyStr) : Prop where
  tokens : ∃ us rest, s = tokensText us ++ doubleQuote :: rest ∧ (∀ t ∈ us, t.WellFormed)
    ∧ neighboursFit us = true
    ∧ us.head?.any Token.isOperand = true ∧ ∀ t ∈ us.getLast?, t ∈ [Token.eq, .ne]

/-- An atom is the print of a clause, or breaks off at a double quote. -/
theorem atom_tokens {atom : PyStr} (h : simpleConjunctionAtom atom = true) :
    (∃ ts, Clause ts ∧ .and ∉ ts ∧ tokensText ts = atom) ∨ Broken atom := by
  simp only [simpleConjunctionAtom, Bool.and_eq_true, Bool.or_eq_true, List.isPrefixOf_iff_prefix]
    at h
  obtain ⟨⟨hpath, hop⟩, hliteral⟩ := h
  have hjoin : [cp 0x2E].intercalate ((atom.takeWhile isPathChar).splitOn (cp 0x2E))
      = atom.takeWhile isPathChar := List.intercalate_splitOn _
  split at hpath
  · next head name names hsplit =>
    rw [hsplit] at hjoin
    simp only [Bool.and_eq_true, beq_iff_eq, List.all_eq_true] at hpath
    obtain ⟨rfl, hnames⟩ := hpath
    have hall : ∀ m ∈ lit "github" :: name :: names, isName m = true :=
      List.forall_mem_cons.mpr ⟨rfl, fun m hm => isName_of_isIdentifier (hnames m hm)⟩
    obtain ⟨hclause, hand⟩ := pathTokens_clause hall
    generalize hpt : pathTokens (lit "github" :: name :: names) = path at hclause hand
    have hptext : tokensText path = atom.takeWhile isPathChar := by
      rw [← hpt, pathTokens_text, hjoin]
    -- the operator as a token, and the text after it
    have hoperator : ∃ op ∈ [Token.eq, .ne], atom.dropWhile isPathChar = op.text
      ++ (atom.dropWhile isPathChar).drop 2 := by
      rcases hop with ⟨rest, hrest⟩ | ⟨rest, hrest⟩
      · exact ⟨.eq, by simp, by rw [← hrest]; rfl⟩
      · exact ⟨.ne, by simp, by rw [← hrest]; rfl⟩
    obtain ⟨op, hmem, hoptext⟩ := hoperator
    have hopwf : op.WellFormed ∧ op ≠ .and ∧ op ∈ [Token.eq, .ne, .and, .or] := by
      simp only [List.mem_cons, List.not_mem_nil, or_false] at hmem
      rcases hmem with rfl | rfl <;> exact ⟨trivial, by simp, by simp⟩
    have hatom : atom = tokensText path ++ op.text ++ (atom.dropWhile isPathChar).drop 2 := by
      rw [hptext, List.append_assoc, ← hoptext, List.takeWhile_append_dropWhile]
    rcases atomLiteral_token hliteral with ⟨t, htwf, htop, httext⟩ | ⟨rest, hrest⟩
    · left
      refine ⟨path ++ [op, t], ⟨?_, ?_, ?_, ?_⟩, ?_, ?_⟩
      · intro u hu
        rcases List.mem_append.mp hu with hu | hu
        · exact hclause.wellFormed u hu
        · simp only [List.mem_cons, List.not_mem_nil, or_false] at hu
          rcases hu with rfl | rfl
          · exact hopwf.1
          · exact htwf
      · exact hclause.append hopwf.2.2 rfl (by simpa using htop)
      · have hfirst := hclause.first
        cases path with
        | nil => exact absurd hfirst (by simp)
        | cons a path => simpa using hfirst
      · simpa using htop
      · intro hmemand
        rcases List.mem_append.mp hmemand with hu | hu
        · exact hand _ hu rfl
        · simp only [List.mem_cons, List.not_mem_nil, or_false] at hu
          rcases hu with hu | hu
          · exact hopwf.2.1 hu.symm
          · rw [← hu] at htop
            exact absurd htop (by decide)
      · conv_rhs => rw [hatom, ← httext]
        simp [tokensText]
    · right
      refine ⟨path ++ [op], rest, ?_, ?_, ?_, ?_, ?_⟩
      · conv_lhs => rw [hatom, hrest]
        simp [tokensText]
      · intro u hu
        rcases List.mem_append.mp hu with hu | hu
        · exact hclause.wellFormed u hu
        · rw [List.mem_singleton.mp hu]
          exact hopwf.1
      · apply neighboursFit_append hclause.fit rfl
        intro a ha b hb
        obtain rfl := Option.some.inj hb
        have hlast := hclause.last
        rw [Option.mem_def.mp ha] at hlast
        exact (follows_operator hlast hopwf.2.2).1
      · have hfirst := hclause.first
        cases path with
        | nil => exact absurd hfirst (by simp)
        | cons a path => simpa using hfirst
      · intro u hu
        rw [List.getLast?_concat] at hu
        obtain rfl := Option.some.inj hu
        exact hmem
  · exact absurd hpath (by simp)

/-! ## The pieces of a conjunction -/

/-- Splitting gives at least one part. -/
theorem splitFrom_ne_nil (sep : PyStr) (skip : Nat) (s : PyStr) : splitFrom sep skip s ≠ [] := by
  induction s generalizing skip with
  | nil => cases skip <;> simp [splitFrom]
  | cons c s ih =>
    cases skip with
    | succ skip => exact ih skip
    | zero =>
      rw [splitFrom]
      split
      · simp
      · cases hrest : splitFrom sep 0 s with
        | nil => exact absurd hrest (ih 0)
        | cons piece rest => simp [List.modifyHead]

/-- The pieces with the separator between them are the text again. -/
theorem intercalate_splitFrom {sep : PyStr} (hsep : sep ≠ []) (skip : Nat) (s : PyStr) :
    sep.intercalate (splitFrom sep skip s) = s.drop skip := by
  induction s generalizing skip with
  | nil => cases skip <;> simp [splitFrom]
  | cons c s ih =>
    cases skip with
    | succ skip => exact ih skip
    | zero =>
      rw [splitFrom]
      split
      · next hprefix =>
        obtain ⟨rest, hrest⟩ := List.isPrefixOf_iff_prefix.mp hprefix
        have hlength : 0 < sep.length := List.length_pos_of_ne_nil hsep
        have hdrop : s.drop (sep.length - 1) = (c :: s).drop sep.length := by
          obtain ⟨n, hn⟩ : ∃ n, sep.length = n + 1 := ⟨sep.length - 1, by omega⟩
          rw [hn]
          rfl
        rw [List.intercalate_cons_of_ne_nil (splitFrom_ne_nil _ _ _), ih, hdrop, ← hrest,
          List.drop_left]
        simp
      · have hrest := ih 0
        cases hpieces : splitFrom sep 0 s with
        | nil => exact absurd hpieces (splitFrom_ne_nil _ _ _)
        | cons piece rest =>
          rw [hpieces] at hrest
          rw [List.modifyHead_cons, List.drop_zero]
          rw [List.drop_zero] at hrest
          rw [← hrest]
          cases rest with
          | nil => simp [List.intercalate_singleton]
          | cons piece' rest => simp [List.intercalate_cons_cons]

/-- Pieces that are atoms spell a conjunction of clauses, or the text breaks off
at a double quote in one of them. -/
theorem atoms_tokens {atoms : List PyStr} (hne : atoms ≠ [])
    (h : ∀ a ∈ atoms, simpleConjunctionAtom a = true) :
    (∃ tss : List (List Token), tss.map tokensText = atoms ∧ ∀ ts ∈ tss, Clause ts ∧ .and ∉ ts)
      ∨ Broken ((lit "&&").intercalate atoms) := by
  induction atoms with
  | nil => exact absurd rfl hne
  | cons a atoms ih =>
    obtain ⟨ha, hatoms⟩ := List.forall_mem_cons.mp h
    rcases atom_tokens ha with ⟨ts, hts, hand, htext⟩ | ⟨us, rest, rfl, hwf, hfit, hfirst, hlast⟩
    · cases atoms with
      | nil => exact .inl ⟨[ts], by simp [htext], by simp [hts, hand]⟩
      | cons b atoms =>
        rcases ih (by simp) hatoms with ⟨tss, htss, hclauses⟩
          | ⟨us, rest, htext', hwf, hfit, hfirst, hlast⟩
        · refine .inl ⟨ts :: tss, by rw [List.map_cons, htext, htss], ?_⟩
          exact List.forall_mem_cons.mpr ⟨⟨hts, hand⟩, hclauses⟩
        · refine .inr ⟨ts ++ .and :: us, rest, ?_, ?_, hts.append (by simp) hfit hfirst, ?_, ?_⟩
          · rw [List.intercalate_cons_of_ne_nil (by simp), htext', ← htext]
            simp [tokensText, Token.text]
          · intro t ht
            rcases List.mem_append.mp ht with ht | ht
            · exact hts.wellFormed t ht
            · rcases List.mem_cons.mp ht with rfl | ht
              · trivial
              · exact hwf t ht
          · have hhead := hts.first
            cases ts with
            | nil => exact absurd hhead (by simp)
            | cons t ts => simpa using hhead
          · intro t ht
            cases us with
            | nil => exact absurd hfirst (by simp)
            | cons u us => exact hlast t (by simpa using ht)
    · right
      cases atoms with
      | nil =>
        rw [List.intercalate_singleton]
        exact ⟨us, rest, rfl, hwf, hfit, hfirst, hlast⟩
      | cons b atoms =>
        refine ⟨us, rest ++ lit "&&" ++ (lit "&&").intercalate (b :: atoms), ?_, hwf, hfit,
          hfirst, hlast⟩
        rw [List.intercalate_cons_of_ne_nil (by simp)]
        simp

/-- Clauses joined by `&&` are a clause. -/
theorem Clause.intercalate {tss : List (List Token)} (hne : tss ≠ []) (h : ∀ ts ∈ tss, Clause ts) :
    Clause ([Token.and].intercalate tss)
      ∧ tokensText ([Token.and].intercalate tss) = (lit "&&").intercalate (tss.map tokensText) := by
  induction tss with
  | nil => exact absurd rfl hne
  | cons ts tss ih =>
    obtain ⟨hts, htss⟩ := List.forall_mem_cons.mp h
    cases tss with
    | nil => simpa [List.intercalate_singleton] using hts
    | cons us tss =>
      obtain ⟨hclause, htext⟩ := ih (by simp) htss
      have hjoin : [Token.and].intercalate (ts :: us :: tss) = ts
        ++ .and :: [Token.and].intercalate (us :: tss) := by
        rw [List.intercalate_cons_cons, List.append_assoc]
        rfl
      generalize [Token.and].intercalate (us :: tss) = rest at hclause htext hjoin
      rw [hjoin]
      refine ⟨⟨?_, hts.append (by simp) hclause.fit hclause.first, ?_, ?_⟩, ?_⟩
      · intro t ht
        rcases List.mem_append.mp ht with ht | ht
        · exact hts.wellFormed t ht
        · rcases List.mem_cons.mp ht with rfl | ht
          · trivial
          · exact hclause.wellFormed t ht
      · have hfirst := hts.first
        cases ts with
        | nil => exact absurd hfirst (by simp)
        | cons t ts => simpa using hfirst
      · have hlast := hclause.last
        cases rest with
        | nil => exact absurd hlast (by simp)
        | cons t rest =>
          rw [List.getLast?_append_cons, List.getLast?_cons_cons]
          exact hlast
      · rw [List.map_cons, List.intercalate_cons_of_ne_nil (by simp), ← htext]
        simp [tokensText, Token.text]

/-! ## What an accepted condition means -/

section Meaning

variable {N : Type} {host : Host N} {ctx : Context N} {e : PyStr}

/-- A text that breaks off at a double quote is no expression. -/
theorem Broken.not_spelled {s : PyStr} {ts : List Token} (h : Broken (dropSpaces s)) :
    ¬ Spelled s ts := by
  intro hspelled
  obtain ⟨us, rest, htext, hwf, hfit, -, hlast⟩ := h
  have hends : ∀ t ∈ us.getLast?, t.Ends (doubleQuote :: rest) := by
    intro t ht
    have hop := hlast t ht
    simp only [List.mem_cons, List.not_mem_nil, or_false] at hop
    rcases hop with rfl | rfl <;> trivial
  exact hspelled.not_prefix hwf hfit hends (lexFrom_bad rest rfl rfl) htext

theorem squeeze_eq {t u : Token} (h : t.squeeze = u) (hu : ∀ w, u ≠ .string w) : t = u := by
  cases t with
  | string w => exact absurd h.symm (hu _)
  | _ => exact h

/-- Only string literals are squeezed, so without one the tokens are the same. -/
theorem map_squeeze_eq {ts us : List Token} (h : ts.map Token.squeeze = us)
    (hus : ∀ u ∈ us, ∀ w, u ≠ .string w) :
    ts = us := by
  induction ts generalizing us with
  | nil => exact h
  | cons t ts ih =>
    cases us with
    | nil => exact absurd h (by simp)
    | cons u us =>
      obtain ⟨htu, hrest⟩ := List.cons.inj h
      obtain ⟨hu, hus⟩ := List.forall_mem_cons.mp hus
      rw [squeeze_eq htu hu, ih hrest hus]

/-- Squeezing does not touch `&&`, so it commutes with splitting. -/
theorem splitOn_map_squeeze (ts : List Token) :
    (ts.map Token.squeeze).splitOn .and = (ts.splitOn .and).map (List.map Token.squeeze) := by
  have hsep : ∀ t : Token, (t.squeeze == Token.and) = (t == Token.and) := by
    intro t
    cases t <;> rfl
  induction ts with
  | nil => rfl
  | cons t ts ih =>
    unfold List.splitOn at ih ⊢
    rw [List.map_cons, List.splitOnP_cons_eq_if_modifyHead,
      List.splitOnP_cons_eq_if_modifyHead, hsep]
    split
    · rw [ih, List.map_cons, List.map_nil]
    · rw [ih]
      cases ts.splitOnP (· == .and) <;> rfl

/-- On a draft the draft comparison is false. -/
theorem comparison_draftFalse (hrun : DraftRun ctx e) :
    comparison host ctx draftFalseTokens = some (.bool false) := by
  have hparts : comparands draftFalseTokens
      = (pathTokens [lit "github", lit "event", lit "pull_request", lit "draft"],
        [(true, [.name (lit "false")])]) := rfl
  have hdraft : operand host ctx
    (pathTokens [lit "github", lit "event", lit "pull_request", lit "draft"])
      = some (.bool true) := hrun.draft
  have hfalse : operand host ctx [.name (lit "false")] = some (.bool false) := rfl
  unfold comparison
  rw [hparts, hdraft]
  simp [compareAll, hfalse, looseEq]

theorem conjunction_draftFalse (hrun : DraftRun ctx e) :
    conjunction host ctx draftFalseTokens = some (.bool false) := by
  have hsplit : draftFalseTokens.splitOn .and = [draftFalseTokens] := rfl
  unfold conjunction
  rw [hsplit, List.mapM_cons, List.mapM_nil, comparison_draftFalse hrun]
  rfl

variable (host) in
/-- The disjunction compares the event's name with the text between its quotes. -/
theorem disjunction_guard (hrun : DraftRun ctx e) (w : PyStr) :
    ∃ v, disjunction host ctx (guardTokens w) = some v
      ∧ isTruthy host v = !(e.map host.fold == w.map host.fold) := by
  have hsplit : (guardTokens w).splitOn .or
      = [pathTokens [lit "github", lit "event_name"] ++ [.ne, .string w], draftFalseTokens] := rfl
  have hevent : operand host ctx (pathTokens [lit "github", lit "event_name"])
    = some (.string e) := hrun.event
  have hfirst : conjunction host ctx (pathTokens [lit "github", lit "event_name"]
    ++ [.ne, .string w])
      = some (.bool (!(e.map host.fold == w.map host.fold))) := by
    have hparts : comparands (pathTokens [lit "github", lit "event_name"] ++ [.ne, .string w])
        = (pathTokens [lit "github", lit "event_name"], [(false, [.string w])]) := rfl
    have hsingle : (pathTokens [lit "github", lit "event_name"]
      ++ [Token.ne, .string w]).splitOn .and
        = [pathTokens [lit "github", lit "event_name"] ++ [.ne, .string w]] := rfl
    unfold conjunction comparison
    rw [hsingle, List.mapM_cons, List.mapM_nil, hparts, hevent]
    simp [compareAll, operand, looseEq, andAll]
  unfold disjunction
  rw [hsplit, List.mapM_cons, List.mapM_cons, List.mapM_nil, hfirst, conjunction_draftFalse hrun]
  refine ⟨_, rfl, ?_⟩
  rw [isTruthy_orAll host (by simp)]
  simp [isTruthy]

/-- An accepted conjunction is false on every draft. -/
theorem conjunction_sound {condition : PyStr} {ts : List Token}
    (hspelled : Spelled (ifExpression condition) ts)
    (hno : ¬ lit "||" <:+: compact condition)
    (hatoms : ∀ a ∈ splitText (lit "&&") (compact condition), simpleConjunctionAtom a = true)
    (hdraft : draftFalseAtom ∈ splitText (lit "&&") (compact condition)) (hrun : DraftRun ctx e)
    {v : Value N} (hv : disjunction host ctx ts = some v) : isTruthy host v = false := by
  have hne : splitText (lit "&&") (compact condition) ≠ [] := List.ne_nil_of_mem hdraft
  have hjoin : (lit "&&").intercalate (splitText (lit "&&") (compact condition))
    = dropSpaces (ifExpression condition) := by
    have hsep : lit "&&" ≠ [] := by decide
    have h := intercalate_splitFrom hsep 0 (compact condition)
    rw [List.drop_zero] at h
    exact h.trans (compact_eq hspelled)
  rcases atoms_tokens hne hatoms with ⟨tss, htss, hclauses⟩ | hbroken
  · have htssne : tss ≠ [] := by
      rintro rfl
      exact hne htss.symm
    obtain ⟨hclause, htext⟩ := Clause.intercalate htssne fun ts hts => (hclauses ts hts).1
    have hsqueeze : ts.map Token.squeeze = [Token.and].intercalate tss :=
      hspelled.map_squeeze hclause.wellFormed hclause.fit (by rw [htext, htss, hjoin])
    -- the draft comparison is one of the parts of the conjunction
    have hpart : draftFalseTokens ∈ ts.splitOn .and := by
      rw [← htss] at hdraft
      obtain ⟨us, hus, hustext⟩ := List.mem_map.mp hdraft
      have huseq : us = draftFalseTokens := by
        have hdrafttext : draftFalseAtom = tokensText draftFalseTokens := rfl
        apply tokensText_injective (hclauses us hus).1.wellFormed ?_ (hclauses us hus).1.fit rfl
          (hustext.trans hdrafttext)
        intro t ht
        simp only [draftFalseTokens, pathTokens, List.cons_append, List.nil_append, List.mem_cons,
          List.not_mem_nil, or_false] at ht
        rcases ht with rfl | rfl | rfl | rfl | rfl | rfl | rfl | rfl | rfl <;> first | rfl | trivial
      have hsplit : (ts.splitOn .and).map (List.map Token.squeeze) = tss := by
        rw [← splitOn_map_squeeze, hsqueeze]
        exact List.splitOn_intercalate _ (fun us hus => (hclauses us hus).2) htssne
      rw [← hsplit, huseq] at hus
      obtain ⟨part, hmem, hparteq⟩ := List.mem_map.mp hus
      have hplain : ∀ u ∈ draftFalseTokens, ∀ w, u ≠ .string w := by
        intro u hu w
        rintro rfl
        simp [draftFalseTokens, pathTokens] at hu
      rw [← map_squeeze_eq hparteq hplain]
      exact hmem
    have hor : .or ∉ ts := by
      intro hmem
      apply hno
      obtain ⟨before, after, rfl⟩ := List.append_of_mem hmem
      refine ⟨tokensText (before.map Token.squeeze), tokensText (after.map Token.squeeze), ?_⟩
      rw [compact_eq hspelled, ← hspelled.text]
      simp [tokensText, Token.text, Token.squeeze]
    rw [disjunction_of_not_mem host ctx hor] at hv
    exact conjunction_falsy host ctx hv hpart (comparison_draftFalse hrun) rfl
  · rw [hjoin] at hbroken
    exact absurd hspelled hbroken.not_spelled

theorem guardTokens_wellFormed (w : PyStr) : ∀ t ∈ guardTokens w, t.WellFormed := by
  intro t ht
  simp only [guardTokens, draftFalseTokens, pathTokens, List.cons_append, List.nil_append,
    List.mem_cons,
    List.not_mem_nil, or_false] at ht
  rcases ht with rfl | rfl | rfl | rfl | rfl | rfl | rfl | rfl | rfl | rfl | rfl | rfl | rfl
    | rfl | rfl <;>
    first | rfl | trivial

/-- An expression whose compact text is one of the accepted disjunctions is that
disjunction, up to whitespace inside the quotes. -/
theorem accepted_tokens {condition : PyStr} {ts : List Token} (he : e ∈ pullRequestEvents)
    (hspelled : Spelled (ifExpression condition) ts)
    (h : compact condition ∈ acceptedConditions e) :
    ∃ w, dropSpaces w = e ∧ ts = guardTokens w := by
  have hquoted : quoted e = e := by
    simp only [pullRequestEvents, List.mem_cons, List.not_mem_nil, or_false] at he
    rcases he with rfl | rfl <;> rfl
  have hname : ∀ n : String, tokensText [.name (lit n)] = lit n := fun n => by
    simp [tokensText, Token.text]
  simp only [acceptedConditions, List.mem_cons, List.not_mem_nil, or_false, compact_eq hspelled]
    at h
  rcases h with h | h
  · have htext : dropSpaces (ifExpression condition) = tokensText (guardTokens e) := by
      rw [h]
      have hprint : tokensText (guardTokens e) = lit "github.event_name!="
        ++ (quote :: (quoted e ++ [quote]))
          ++ lit "||" ++ draftFalseAtom := by
        simp only [guardTokens, tokensText, List.flatMap_append, List.flatMap_cons,
          List.flatMap_nil, Token.text]
        rfl
      rw [hprint, hquoted]
      have hopen : lit "github.event_name!='" = lit "github.event_name!=" ++ [quote] := rfl
      have hclose : lit "'||" = [quote] ++ lit "||" := rfl
      rw [hopen, hclose]
      simp
    have hsqueeze := hspelled.map_squeeze (guardTokens_wellFormed e) rfl htext
    have hlength : ts.length = (guardTokens e).length := by rw [← hsqueeze, List.length_map]
    -- only the fifth token is a string
    have hsplit : guardTokens e = (guardTokens e).take 4
      ++ .string e :: (guardTokens e).drop 5 := rfl
    rw [hsplit] at hsqueeze
    obtain ⟨before, rest, rfl, hbefore, hrest⟩ := List.map_eq_append_iff.mp hsqueeze
    obtain ⟨t, after, rfl, ht, hafter⟩ := List.map_eq_cons_iff.mp hrest
    have hplain : ∀ us, us = (guardTokens e).take 4 ∨ us = (guardTokens e).drop 5 →
        ∀ u ∈ us, ∀ w, u ≠ Token.string w := by
      rintro us (rfl | rfl) u hu w rfl <;>
        simp [guardTokens, draftFalseTokens, pathTokens] at hu
    have hb := map_squeeze_eq hbefore (hplain _ (.inl rfl))
    have ha := map_squeeze_eq hafter (hplain _ (.inr rfl))
    cases t with
    | string w =>
      refine ⟨w, Token.string.inj ht, ?_⟩
      rw [hb, ha]
      rfl
    | name _ | number _ | dot | eq | ne | and | or => exact absurd ht (by simp [Token.squeeze])
  · have hbroken : Broken (dropSpaces (ifExpression condition)) := by
      refine ⟨pathTokens [lit "github", lit "event_name"] ++ [.ne], e ++ lit "\"||"
        ++ draftFalseAtom, ?_, ?_, rfl, rfl, ?_⟩
      · rw [h]
        have hopen : lit "github.event_name!=\"" ++ e
            = tokensText (pathTokens [lit "github", lit "event_name"] ++ [.ne])
              ++ doubleQuote :: e := rfl
        rw [hopen]
        simp
      · intro t ht
        simp only [pathTokens, List.cons_append, List.nil_append, List.mem_cons, List.not_mem_nil,
          or_false] at ht
        rcases ht with rfl | rfl | rfl | rfl <;> first | rfl | trivial
      · intro t ht
        obtain rfl := Option.some.inj ht
        simp
    exact absurd hspelled hbroken.not_spelled

/-- A run of event `e` for a draft. -/
def draftRun (N : Type) (e : PyStr) : Context N := fun path =>
  if path = [lit "github", lit "event_name"] then some (.string e)
  else if path = [lit "github", lit "event", lit "pull_request", lit "draft"] then some (.bool true)
  else none

theorem draftRun_spec (e : PyStr) : DraftRun (draftRun N e) e :=
  ⟨by simp [draftRun], by simp [draftRun]⟩

theorem length_dropSpaces_lt {w : PyStr} (h : dropSpaces w ≠ w) :
    (dropSpaces w).length < w.length := by
  apply lt_of_le_of_ne (List.length_filter_le _ _)
  intro hlength
  exact h (List.filter_eq_self.mpr (List.length_filter_eq_length_iff.mp hlength))

end Meaning

/-- With whitespace inside the quotes the disjunction lets every draft through. -/
theorem not_skipsDrafts_of_spaced {N : Type} (host : Host N) {condition e : PyStr}
    (h : SpacedEventName condition e) : ¬ SkipsDrafts host condition e := by
  intro hskips
  obtain ⟨w, hw, hdrop, htokens⟩ := h
  obtain ⟨v, hv, htrue⟩ := disjunction_guard host (draftRun_spec (N := N) e) w
  have hvalue : value host (draftRun N e) (ifExpression condition) = some v := by
    unfold value
    rw [htokens]
    exact hv
  -- the text between the quotes is longer than the name, and folding keeps lengths
  have hlength : e.length < w.length := by
    rw [← hdrop]
    apply length_dropSpaces_lt
    rw [hdrop]
    exact fun heq => hw heq.symm
  have hfold : (e.map host.fold == w.map host.fold) = false := by
    rw [beq_eq_false_iff_ne]
    intro heq
    have hmap := congrArg List.length heq
    rw [List.length_map, List.length_map] at hmap
    omega
  rw [hskips _ (draftRun_spec e) v hvalue, hfold] at htrue
  exact absurd htrue (by simp)

/-- A condition that passes and has no blank inside an event name does skip drafts: squeezed and
unsqueezed it is the same expression. -/
theorem skipsDrafts_of_not_spaced {N : Type} (host : Host N) {condition e : PyStr}
    (he : e ∈ pullRequestEvents)
    (h : draftConditionIsSafe (.str condition) [e] = true) (hnot : ¬ SpacedEventName condition e) :
    SkipsDrafts host condition e := by
  intro ctx hrun v hv
  unfold value at hv
  obtain ⟨ts, htokens, hv⟩ := Option.bind_eq_some_iff.mp hv
  have hspelled := spelled_of_tokens htokens
  unfold draftConditionIsSafe at h
  by_cases haccepted : (acceptedConditions e).contains (compact condition) = true
  · obtain ⟨w, hdrop, rfl⟩ := accepted_tokens he hspelled (List.contains_iff_mem.mp haccepted)
    have hw : w = e := by
      by_contra hw
      exact hnot ⟨w, hw, hdrop, htokens⟩
    obtain ⟨v', hv', htrue⟩ := disjunction_guard host hrun w
    obtain rfl := Option.some.inj (hv.symm.trans hv')
    rw [htrue, hw]
    simp
  · simp only [if_neg haccepted] at h
    split at h
    · exact absurd h (by simp)
    · next hfree =>
      simp only [not_or] at hfree
      simp only [Bool.and_eq_true, List.all_eq_true] at h
      obtain ⟨⟨⟨-, hdraft⟩, -⟩, hatoms⟩ := h
      exact conjunction_sound hspelled hfree.1 hatoms (List.contains_iff_mem.mp hdraft) hrun hv

/-- Integers and a value that is no number, for conditions without numeric text. -/
def integerHost : Host (Option Int) where
  numberOf _ := none
  coerce
    | .null => some 0
    | .bool b => some (if b then 1 else 0)
    | .number n => n
    | .string s => if s.isEmpty then some 0 else none
    | .node _ => none
  same
    | some a, some b => a == b
    | _, _ => false
  isZero n := n.isNone || n == some 0
  fold := lowerLetter

/-- The `types` of a pull-request event. -/
def eventTypes (config : Json) : List PyStr :=
  match config with
  | .obj members =>
    match get (lit "types") members with
    | .arr items => items.filterMap fun item => match item with
      | .str s => some s
      | _ => none
    | _ => []
  | _ => []

/-- What `_inspect_workflow` says about drafts under `skip_draft_pull_requests`:
the events need the two types a change of draft status sends, and every job the guard. -/
def draftErrors (workflowName : PyStr) (events jobs : Members) : List PyStr :=
  let eventNames := pullRequestEvents.filter fun n => hasKey n events
  if eventNames.isEmpty then []
  else
    let types := eventNames.flatMap fun n => eventTypes (get n events)
    let typeErrors := ["ready_for_review", "converted_to_draft"].filterMap fun required =>
      if types.contains (lit required) then none
      else some (workflowName ++ lit ": pull_request types must include " ++ lit required)
    let jobErrors := jobs.filterMap fun job =>
      let condition := match job.2 with
        | .obj members => get (lit "if") members
        | _ => .null
      if draftConditionIsSafe condition eventNames then none
      else some (workflowName ++ lit ": pull-request job " ++ job.1
        ++ lit " must skip Draft PR runners with the exact guard or a stricter fail-closed conjunction")
    typeErrors ++ jobErrors

theorem draftConditionIsSafe_single {condition : Json} {names : List PyStr}
    (h : draftConditionIsSafe condition names = true) :
    ∃ text e, condition = .str text ∧ names = [e] := by
  unfold draftConditionIsSafe at h
  split at h
  · next text e => exact ⟨text, e, rfl, rfl⟩
  · exact absurd h (by simp)

/-- In a workflow that passes, with a job and a pull-request event, the event is
the only one of the two, and every job whose condition has no whitespace inside
the quotes of its event name skips the drafts. -/
theorem draftErrors_sound {N : Type} (host : Host N) {workflowName e : PyStr}
    {events jobs : Members}
    (he : e ∈ pullRequestEvents) (hevent : hasKey e events = true)
    (h : draftErrors workflowName events jobs = []) {name : PyStr} {job : Members}
    (hjob : (name, .obj job) ∈ jobs) :
    (∀ e' ∈ pullRequestEvents, hasKey e' events = true → e' = e)
      ∧ ∃ condition, get (lit "if") job = .str condition
        ∧ (SkipsDrafts host condition e ↔ ¬ SpacedEventName condition e) := by
  unfold draftErrors at h
  have hmem : e ∈ pullRequestEvents.filter fun n => hasKey n events :=
    List.mem_filter.mpr ⟨he, hevent⟩
  have hne : (pullRequestEvents.filter fun n => hasKey n events).isEmpty = false := by
    rw [List.isEmpty_eq_false_iff]
    exact List.ne_nil_of_mem hmem
  simp only [hne, Bool.false_eq_true, if_false, List.append_eq_nil_iff, List.filterMap_eq_nil_iff]
    at h
  have hsafe := h.2 _ hjob
  simp only [ite_eq_left_iff, reduceCtorEq, imp_false, Bool.not_eq_true, Bool.not_eq_false] at hsafe
  obtain ⟨condition, e', hcondition, hsingle⟩ := draftConditionIsSafe_single hsafe
  rw [hsingle] at hmem
  obtain rfl := List.mem_singleton.mp hmem
  constructor
  · intro other hother hkey
    have hin : other ∈ pullRequestEvents.filter fun n => hasKey n events :=
      List.mem_filter.mpr ⟨hother, hkey⟩
    rw [hsingle] at hin
    exact List.mem_singleton.mp hin
  · rw [hcondition, hsingle] at hsafe
    exact ⟨condition, hcondition, fun hskips hspaced =>
      not_skipsDrafts_of_spaced host hspaced hskips,
      skipsDrafts_of_not_spaced host he hsafe⟩

end SddGov.CiGuard
