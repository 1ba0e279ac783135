import SddGov.Python.Text

/-!
# Expressions of a workflow file

The part of the workflow expression language that conditions on the event are
written in: names with properties, single-quoted strings, numbers, the keywords
`true`, `false` and `null`, the comparisons `==` and `!=`, and `&&` and `||`.
Whitespace separates tokens and means nothing, except inside a string, where it
is part of the text. Only a single quote opens a string; any other character
outside a string is no part of an expression.

`lex` is a Mealy machine over the characters. `tokens` keeps the token lists
whose neighbours fit together, so an operand is known by its tokens, and
`value` computes what the expression stands for. Coercions between types and the
comparison of numbers are the host's.
-/

namespace SddGov.Actions

open SddGov.Python

/-! ## Tokens -/

inductive Token
  | name (text : PyStr)
  | number (text : PyStr)
  | string (value : PyStr)
  | dot
  | eq
  | ne
  | and
  | or
  deriving DecidableEq, Repr

def quote : CodePoint := cp 0x27

/-- Whitespace between tokens. The separators `U+001C` to `U+001F` are none. -/
def isGap (c : CodePoint) : Bool :=
  isSpace c && !(0x1C ≤ c.val && c.val ≤ 0x1F)

def isDigit (c : CodePoint) : Bool := 0x30 ≤ c.val && c.val ≤ 0x39

def isLetter (c : CodePoint) : Bool :=
  (0x41 ≤ c.val && c.val ≤ 0x5A) || (0x61 ≤ c.val && c.val ≤ 0x7A)

/-- The characters a name or a number ends at: gaps and `( ) [ ] , . ! = < > & |`. -/
def isStop (c : CodePoint) : Bool :=
  isGap c || [0x28, 0x29, 0x5B, 0x5D, 0x2C, 0x2E, 0x21, 0x3D, 0x3C, 0x3E, 0x26, 0x7C].any
    (c.val == ·)

def isNameStart (c : CodePoint) : Bool := isLetter c || c.val == 0x5F

def isNameChar (c : CodePoint) : Bool := isNameStart c || isDigit c || c.val == 0x2D

/-- `[A-Za-z_][A-Za-z0-9_-]*` -/
def isName : PyStr → Bool
  | [] => false
  | c :: s => isNameStart c && s.all isNameChar

def isNumberStart (c : CodePoint) : Bool := isDigit c || c.val == 0x2D || c.val == 0x2B

def isNumberChar (c : CodePoint) : Bool := isNumberStart c || isLetter c || c.val == 0x2E

/-- A sign or a digit, then letters, digits, signs and points; what number it
is, and whether it is one, is for the host to say. -/
def isNumber : PyStr → Bool
  | [] => false
  | c :: s => isNumberStart c && s.all isNumberChar

/-! ## The lexer -/

inductive LexState
  | start
  | name (read : PyStr)
  | number (read : PyStr)
  | string (read : PyStr)
  | quote (read : PyStr)   -- after a quote that ends the string or is the first of two
  | operator (first : CodePoint)

/-- The token of an operator that starts with `c`, and its second character. -/
def operatorOf (c : CodePoint) : Option (CodePoint × Token) :=
  if c.val = 0x3D then some (cp 0x3D, .eq)
  else if c.val = 0x21 then some (cp 0x3D, .ne)
  else if c.val = 0x26 then some (cp 0x26, .and)
  else if c.val = 0x7C then some (cp 0x7C, .or)
  else none

/-- Reading `c` between two tokens. -/
def enter (c : CodePoint) : List Token × LexState :=
  if isGap c then ([], .start)
  else if c = quote then ([], .string [])
  else if c.val = 0x2E then ([.dot], .start)
  else if (operatorOf c).isSome then ([], .operator c)
  else if isNumberStart c then ([], .number [c])
  else ([], .name [c])

/-- A token is complete and `c` is read after it. -/
def close (token : Token) (c : CodePoint) : List Token × LexState :=
  (token :: (enter c).1, (enter c).2)

def step : LexState → CodePoint → Option (List Token × LexState)
  | .start, c => some (enter c)
  | .name read, c =>
    if !isStop c then some ([], .name (read ++ [c]))
    else if isName read then some (close (.name read) c)
    else none
  | .number read, c =>
    if !isStop c || c.val == 0x2E then some ([], .number (read ++ [c]))
    else if isNumber read then some (close (.number read) c)
    else none
  | .string read, c =>
    if c = quote then some ([], .quote read) else some ([], .string (read ++ [c]))
  | .quote read, c =>
    if c = quote then some ([], .string (read ++ [quote])) else some (close (.string read) c)
  | .operator first, c =>
    match operatorOf first with
    | some (second, token) => if c = second then some ([token], .start) else none
    | none => none

def finish : LexState → Option (List Token)
  | .start => some []
  | .name read => if isName read then some [.name read] else none
  | .number read => if isNumber read then some [.number read] else none
  | .quote read => some [.string read]
  | .string _ | .operator _ => none

def lexFrom : LexState → PyStr → Option (List Token)
  | st, [] => finish st
  | st, c :: s =>
    match step st c with
    | some (out, st') => (lexFrom st' s).map (out ++ ·)
    | none => none

def lex (s : PyStr) : Option (List Token) := lexFrom .start s

/-! ## Token lists that read as an expression -/

def Token.isOperand : Token → Bool
  | .name _ | .number _ | .string _ => true
  | _ => false

/-- Which token may stand right after which: a property after a dot, a dot after
a name, and otherwise operands and operators in turn. -/
def follows : Token → Token → Bool
  | .name _, .dot | .dot, .name _ => true
  | .dot, _ | _, .dot => false
  | a, b => a.isOperand != b.isOperand

def neighboursFit : List Token → Bool
  | a :: b :: rest => follows a b && neighboursFit (b :: rest)
  | _ => true

/-- The tokens of an expression. -/
def tokens (s : PyStr) : Option (List Token) :=
  match lex s with
  | some ts =>
    if neighboursFit ts && ts.head?.any Token.isOperand
      && ts.getLast?.any Token.isOperand then some ts
    else none
  | none => none

/-! ## Values -/

/-- A value of the language; objects and arrays compare by instance. -/
inductive Value (N : Type)
  | null
  | bool (b : Bool)
  | number (n : N)
  | string (s : PyStr)
  | node (ref : Nat)

/-- The host's coercions: what number a literal is, the number a value counts
as in a comparison between types, equality of numbers, which numbers count as
false, and the case folding of text comparison. -/
structure Host (N : Type) where
  numberOf : PyStr → Option N
  coerce : Value N → N
  same : N → N → Bool
  isZero : N → Bool
  fold : CodePoint → CodePoint

/-- The value at a path of names, in lower case; `none` when there is no such context. -/
abbrev Context (N : Type) := List PyStr → Option (Value N)

variable {N : Type} (host : Host N) (ctx : Context N)

def looseEq : Value N → Value N → Bool
  | .null, .null => true
  | .bool a, .bool b => a == b
  | .number a, .number b => host.same a b
  | .string a, .string b => a.map host.fold == b.map host.fold
  | .node a, .node b => a == b
  | a, b => host.same (host.coerce a) (host.coerce b)

def isTruthy : Value N → Bool
  | .null => false
  | .bool b => b
  | .number n => !host.isZero n
  | .string s => !s.isEmpty
  | .node _ => true

/-! ## Evaluation -/

def lowerLetter (c : CodePoint) : CodePoint :=
  if 0x41 ≤ c.val ∧ c.val ≤ 0x5A then cp (c.val + 0x20) else c

/-- The path a name and its properties spell. Names do not depend on case. -/
def pathOf : List Token → Option (List PyStr)
  | [.name n] => some [n.map lowerLetter]
  | .name n :: .dot :: rest => (pathOf rest).map (n.map lowerLetter :: ·)
  | _ => none

def keyword (n : PyStr) : Option (Value N) :=
  if n = lit "true" then some (.bool true)
  else if n = lit "false" then some (.bool false)
  else if n = lit "null" then some .null
  else none

def operand (ts : List Token) : Option (Value N) :=
  match ts with
  | [.number text] => (host.numberOf text).map .number
  | [.string s] => some (.string s)
  | [.name n] => (keyword n).or (ctx [n.map lowerLetter])
  | _ => (pathOf ts).bind ctx

/-- The operands of a comparison, each but the first with its operator: `true` for `==`. -/
def comparands : List Token → List Token × List (Bool × List Token)
  | [] => ([], [])
  | .eq :: ts => ([], (true, (comparands ts).1) :: (comparands ts).2)
  | .ne :: ts => ([], (false, (comparands ts).1) :: (comparands ts).2)
  | t :: ts => (t :: (comparands ts).1, (comparands ts).2)

/-- `==` and `!=`, from left to right. -/
def compareAll (left : Value N) : List (Bool × List Token) → Option (Value N)
  | [] => some left
  | (isEq, ts) :: rest =>
    match operand host ctx ts with
    | some right => compareAll (.bool (looseEq host left right == isEq)) rest
    | none => none

def comparison (ts : List Token) : Option (Value N) :=
  match operand host ctx (comparands ts).1 with
  | some first => compareAll host ctx first (comparands ts).2
  | none => none

/-- `a && b` is `a` where that counts as false, and else `b`. -/
def andAll : List (Value N) → Value N
  | [] => .null
  | [v] => v
  | v :: vs => if isTruthy host v then andAll vs else v

/-- `a || b` is `a` where that counts as true, and else `b`. -/
def orAll : List (Value N) → Value N
  | [] => .null
  | [v] => v
  | v :: vs => if isTruthy host v then v else orAll vs

def conjunction (ts : List Token) : Option (Value N) :=
  ((ts.splitOn .and).mapM (comparison host ctx)).map (andAll host)

def disjunction (ts : List Token) : Option (Value N) :=
  ((ts.splitOn .or).mapM (conjunction host ctx)).map (orAll host)

/-- What an expression stands for; `none` when it is not one. -/
def value (s : PyStr) : Option (Value N) := (tokens s).bind (disjunction host ctx)

/-! ## Printing -/

/-- A string's text between its quotes, where a quote is written twice. -/
def quoted (s : PyStr) : PyStr := s.flatMap fun c => if c = quote then [quote, quote] else [c]

def Token.text : Token → PyStr
  | .name n | .number n => n
  | .string s => quote :: (quoted s ++ [quote])
  | .dot => lit "."
  | .eq => lit "=="
  | .ne => lit "!="
  | .and => lit "&&"
  | .or => lit "||"

/-- The text of a token list, with nothing between the tokens. -/
def tokensText (ts : List Token) : PyStr := ts.flatMap Token.text

/-- A token that can be read. -/
def Token.WellFormed : Token → Prop
  | .name n => isName n = true
  | .number n => isNumber n = true
  | _ => True

/-- Reading goes on with another token at the front of `rest`. -/
def Token.Ends : Token → PyStr → Prop
  | .name _, rest => ∀ c ∈ rest.head?, isStop c = true
  | .number _, rest => ∀ c ∈ rest.head?, isStop c = true ∧ c.val ≠ 0x2E
  | .string _, rest => ∀ c ∈ rest.head?, c ≠ quote
  | _, _ => True

/-! ### Single characters -/

theorem not_isStop_of_isNumberChar {c : CodePoint} (h : isNumberChar c = true)
    (hdot : c.val ≠ 0x2E) :
    isStop c = false := by
  simp [isNumberChar, isNumberStart, isDigit, isLetter, isStop, isGap, isSpace] at h ⊢
  omega

theorem not_isStop_of_isNameChar {c : CodePoint} (h : isNameChar c = true) : isStop c = false := by
  simp [isNameChar, isNameStart, isDigit, isLetter, isStop, isGap, isSpace] at h ⊢
  omega

theorem isNameChar_of_isNameStart {c : CodePoint} (h : isNameStart c = true) :
    isNameChar c = true := by
  unfold isNameChar
  rw [h, Bool.true_or, Bool.true_or]

/-- The start of a name puts nothing out and waits for the rest of it. -/
theorem enter_nameStart {c : CodePoint} (h : isNameStart c = true) : enter c = ([], .name [c]) := by
  have hblank : isGap c = false := by
    simp [isNameStart, isLetter, isGap, isSpace] at h ⊢
    omega
  have hquote : c ≠ quote := by
    rintro rfl
    exact absurd h (by decide)
  have hop : operatorOf c = none := by
    simp [isNameStart, isLetter] at h
    unfold operatorOf
    rw [if_neg (by omega), if_neg (by omega), if_neg (by omega), if_neg (by omega)]
  have hnumber : isNumberStart c = false := by
    simp [isNameStart, isLetter, isNumberStart, isDigit] at h ⊢
    omega
  have hdot : c.val ≠ 0x2E := by
    simp [isNameStart, isLetter] at h
    omega
  simp [enter, hblank, hquote, hdot, hop, hnumber]

/-- The start of a number puts nothing out and waits for the rest of it. -/
theorem enter_numberStart {c : CodePoint} (h : isNumberStart c = true) :
    enter c = ([], .number [c]) := by
  have hblank : isGap c = false := by
    simp [isNumberStart, isDigit, isGap, isSpace] at h ⊢
    omega
  have hquote : c ≠ quote := by
    rintro rfl
    exact absurd h (by decide)
  have hop : operatorOf c = none := by
    simp [isNumberStart, isDigit] at h
    unfold operatorOf
    rw [if_neg (by omega), if_neg (by omega), if_neg (by omega), if_neg (by omega)]
  have hdot : c.val ≠ 0x2E := by
    simp [isNumberStart, isDigit] at h
    omega
  simp [enter, hblank, hquote, hdot, hop, h]

/-! ### Reading back what is printed -/

theorem lexFrom_cons {st st' : LexState} {c : CodePoint} {out : List Token} (s : PyStr)
    (h : step st c = some (out, st')) : lexFrom st (c :: s) = (lexFrom st' s).map (out ++ ·) := by
  rw [lexFrom, h]

/-- A complete token is put in front of whatever is read from there. -/
theorem lexFrom_close {st : LexState} {c : CodePoint} {t : Token} (s : PyStr)
    (h : step st c = some (close t c)) : lexFrom st (c :: s)
    = (lexFrom .start (c :: s)).map (t :: ·) := by
  have hstart : step .start c = some (enter c) := rfl
  rw [lexFrom_cons s h, lexFrom_cons s hstart, Option.map_map]
  rfl

theorem lexFrom_name {read s : PyStr} (rest : PyStr) (h : ∀ c ∈ s, isStop c = false) :
    lexFrom (.name read) (s ++ rest) = lexFrom (.name (read ++ s)) rest := by
  induction s generalizing read with
  | nil => rw [List.append_nil, List.nil_append]
  | cons c s ih =>
    obtain ⟨hc, hs⟩ := List.forall_mem_cons.mp h
    have hstep : step (.name read) c = some ([], .name (read ++ [c])) := by simp [step, hc]
    rw [List.cons_append, lexFrom_cons _ hstep, ih hs, List.append_assoc]
    simp

theorem lexFrom_number {read s : PyStr} (rest : PyStr)
    (h : ∀ c ∈ s, isStop c = false ∨ c.val = 0x2E) :
    lexFrom (.number read) (s ++ rest) = lexFrom (.number (read ++ s)) rest := by
  induction s generalizing read with
  | nil => rw [List.append_nil, List.nil_append]
  | cons c s ih =>
    obtain ⟨hc, hs⟩ := List.forall_mem_cons.mp h
    have hstep : step (.number read) c = some ([], .number (read ++ [c])) := by
      rcases hc with hc | hc <;> simp [step, hc]
    rw [List.cons_append, lexFrom_cons _ hstep, ih hs, List.append_assoc]
    simp

/-- Inside a string literal the quoted text is read as it is, a doubled quote as one. -/
theorem lexFrom_string {read s : PyStr} (rest : PyStr) :
    lexFrom (.string read) (quoted s ++ rest) = lexFrom (.string (read ++ s)) rest := by
  induction s generalizing read with
  | nil => simp [quoted]
  | cons c s ih =>
    by_cases hc : c = quote
    · -- a quote inside the string, written twice
      subst hc
      have htext : quoted (quote :: s) ++ rest = quote :: quote :: (quoted s ++ rest) := by
        simp [quoted]
      have hfirst : step (.string read) quote = some ([], .quote read) := by simp [step]
      have hsecond : step (.quote read) quote = some ([], .string (read ++ [quote])) := by
        simp [step]
      rw [htext, lexFrom_cons _ hfirst, lexFrom_cons _ hsecond, ih, List.append_assoc]
      simp
    · have htext : quoted (c :: s) ++ rest = c :: (quoted s ++ rest) := by simp [quoted, hc]
      have hstep : step (.string read) c = some ([], .string (read ++ [c])) := by simp [step, hc]
      rw [htext, lexFrom_cons _ hstep, ih, List.append_assoc]
      simp

/-- A state that holds the whole of `t` gives `t` where the token ends. -/
theorem lexFrom_ended {st : LexState} {t : Token} {rest : PyStr} (hfinish : finish st = some [t])
    (hstep : ∀ c ∈ rest.head?, step st c = some (close t c)) :
    lexFrom st rest = (lexFrom .start rest).map (t :: ·) := by
  cases rest with
  | nil => exact hfinish
  | cons c s => exact lexFrom_close s (hstep c (by simp))

theorem lexFrom_operator {c second : CodePoint} {t : Token} (rest : PyStr)
    (hop : operatorOf c = some (second, t)) (henter : enter c = ([], .operator c)) :
    lexFrom .start (c :: second :: rest) = (lexFrom .start rest).map (t :: ·) := by
  have hfirst : step .start c = some ([], .operator c) := congrArg some henter
  have hsecond : step (.operator c) second = some ([t], .start) := by simp [step, hop]
  rw [lexFrom_cons _ hfirst, lexFrom_cons _ hsecond, Option.map_map]
  rfl

/-- A token written out is read back as that token, as long as what follows it cannot be read as a
part of it. The lexer is followed character by character, one case per kind of token. -/
theorem lexFrom_token {t : Token} {rest : PyStr} (hwf : t.WellFormed) (hends : t.Ends rest) :
    lexFrom .start (t.text ++ rest) = (lexFrom .start rest).map (t :: ·) := by
  cases t with
  | name n =>
    cases n with
    | nil => exact absurd hwf (by simp [Token.WellFormed, isName])
    | cons c s =>
      have hname : isName (c :: s) = true := hwf
      have hshape := hname
      simp only [isName, Bool.and_eq_true, List.all_eq_true] at hshape
      have hstart : step .start c = some ([], .name [c]) := congrArg some (enter_nameStart hshape.1)
      show lexFrom .start (c :: (s ++ rest)) = _
      rw [lexFrom_cons _ hstart, lexFrom_name rest fun d hd =>
        not_isStop_of_isNameChar (hshape.2 d hd)]
      rw [lexFrom_ended (t := .name (c :: s)) (by simp [finish, hname])]
      · cases lexFrom .start rest <;> rfl
      · intro d hd
        simp [step, hends d hd, hname]
  | number n =>
    cases n with
    | nil => exact absurd hwf (by simp [Token.WellFormed, isNumber])
    | cons c s =>
      have hnumber : isNumber (c :: s) = true := hwf
      have hshape := hnumber
      simp only [isNumber, Bool.and_eq_true, List.all_eq_true] at hshape
      have hstart : step .start c = some ([], .number [c]) :=
        congrArg some (enter_numberStart hshape.1)
      have hchars : ∀ d ∈ s, isStop d = false ∨ d.val = 0x2E := by
        intro d hd
        by_cases hdot : d.val = 0x2E
        · exact .inr hdot
        · exact .inl (not_isStop_of_isNumberChar (hshape.2 d hd) hdot)
      show lexFrom .start (c :: (s ++ rest)) = _
      rw [lexFrom_cons _ hstart, lexFrom_number rest hchars]
      rw [lexFrom_ended (t := .number (c :: s)) (by simp [finish, hnumber])]
      · cases lexFrom .start rest <;> rfl
      · intro d hd
        simp [step, hends d hd, hnumber]
  | string s =>
    have hopen : step .start quote = some ([], .string []) := rfl
    have hclose : step (.string s) quote = some ([], .quote s) := by simp [step]
    show lexFrom .start (quote :: (quoted s ++ [quote] ++ rest)) = _
    rw [lexFrom_cons _ hopen, List.append_assoc, lexFrom_string, List.nil_append,
      List.singleton_append,
      lexFrom_cons _ hclose]
    rw [lexFrom_ended (t := .string s) rfl]
    · cases lexFrom .start rest <;> rfl
    · intro d hd
      simp [step, hends d hd]
  | dot =>
    have hdot : step .start (cp 0x2E) = some ([.dot], .start) := rfl
    exact lexFrom_cons rest hdot
  | eq => exact lexFrom_operator (c := cp 0x3D) rest rfl rfl
  | ne => exact lexFrom_operator (c := cp 0x21) rest rfl rfl
  | and => exact lexFrom_operator (c := cp 0x26) rest rfl rfl
  | or => exact lexFrom_operator (c := cp 0x7C) rest rfl rfl

theorem text_of_not_isOperand {b : Token} (h : b.isOperand = false) :
    ∃ c s, b.text = c :: s ∧ isStop c = true ∧ c ≠ quote ∧ (c.val = 0x2E → b = .dot) := by
  cases b with
  | name _ | number _ | string _ => exact absurd h (by simp [Token.isOperand])
  | dot => exact ⟨cp 0x2E, [], rfl, rfl, by decide, fun _ => rfl⟩
  | eq => exact ⟨cp 0x3D, [cp 0x3D], rfl, rfl, by decide, fun hc => absurd hc (by decide)⟩
  | ne => exact ⟨cp 0x21, [cp 0x3D], rfl, rfl, by decide, fun hc => absurd hc (by decide)⟩
  | and => exact ⟨cp 0x26, [cp 0x26], rfl, rfl, by decide, fun hc => absurd hc (by decide)⟩
  | or => exact ⟨cp 0x7C, [cp 0x7C], rfl, rfl, by decide, fun hc => absurd hc (by decide)⟩

theorem not_isOperand_of_follows {a b : Token} (ha : a.isOperand = true) (h : follows a b = true) :
    b.isOperand = false := by
  cases a <;> cases b <;> simp_all [follows, Token.isOperand]

/-- A token ends where one that may follow it begins. -/
theorem ends_of_follows {a b : Token} (rest : PyStr) (h : follows a b = true) :
    a.Ends (b.text ++ rest) := by
  by_cases ha : a.isOperand = true
  · obtain ⟨c, s, htext, hstop, hquote, hdot⟩ :=
      text_of_not_isOperand (not_isOperand_of_follows ha h)
    cases a with
    | name n => simp [Token.Ends, htext, hstop]
    | number n =>
      have hc : c.val ≠ 0x2E := by
        intro hc
        obtain rfl := hdot hc
        exact absurd h (by simp [follows])
      simp [Token.Ends, htext, hstop, hc]
    | string w => simp [Token.Ends, htext, hquote]
    | dot | eq | ne | and | or => trivial
  · cases a with
    | name _ | number _ | string _ => exact absurd rfl ha
    | dot | eq | ne | and | or => trivial

/-- Printed tokens that fit together are read back, whatever comes after them. -/
theorem lexFrom_tokensText {ts : List Token} {rest : PyStr} (hwf : ∀ t ∈ ts, t.WellFormed)
    (hfit : neighboursFit ts = true) (hends : ∀ t ∈ ts.getLast?, t.Ends rest) :
    lexFrom .start (tokensText ts ++ rest) = (lexFrom .start rest).map (ts ++ ·) := by
  induction ts with
  | nil => simp [tokensText]
  | cons a ts ih =>
    obtain ⟨ha, hts⟩ := List.forall_mem_cons.mp hwf
    have htext : tokensText (a :: ts) ++ rest = a.text ++ (tokensText ts ++ rest) := by
      simp [tokensText]
    cases ts with
    | nil =>
      rw [htext, tokensText, List.flatMap_nil, List.nil_append,
        lexFrom_token ha (hends a (by simp))]
      rfl
    | cons b ts =>
      simp only [neighboursFit, Bool.and_eq_true] at hfit
      have hb : a.Ends (tokensText (b :: ts) ++ rest) := by
        have hbtext : tokensText (b :: ts) ++ rest = b.text ++ (tokensText ts ++ rest) := by
          simp [tokensText]
        rw [hbtext]
        exact ends_of_follows _ hfit.1
      rw [htext, lexFrom_token ha hb, ih hts hfit.2 (by simpa using hends), Option.map_map]
      rfl

theorem ends_nil {ts : List Token} : ∀ t ∈ ts.getLast?, t.Ends [] := by
  intro t _
  cases t <;> simp [Token.Ends]

theorem lex_tokensText {ts : List Token} (hwf : ∀ t ∈ ts, t.WellFormed)
    (hfit : neighboursFit ts = true) :
    lex (tokensText ts) = some ts := by
  have h := lexFrom_tokensText hwf hfit ends_nil
  simpa [lex, lexFrom, finish] using h

/-- Two token lists with one text are the same list. -/
theorem tokensText_injective {ts us : List Token} (hts : ∀ t ∈ ts, t.WellFormed)
    (hus : ∀ t ∈ us, t.WellFormed)
    (htfit : neighboursFit ts = true) (hufit : neighboursFit us = true)
    (h : tokensText ts = tokensText us) :
    ts = us := by
  exact Option.some.inj ((lex_tokensText hts htfit).symm.trans (h ▸ lex_tokensText hus hufit))

/-! ### What is read is printed, up to whitespace -/

/-- The text without any whitespace. -/
def dropSpaces (s : PyStr) : PyStr := s.filter fun c => !isSpace c

theorem dropSpaces_append (s t : PyStr) : dropSpaces (s ++ t) = dropSpaces s ++ dropSpaces t :=
  List.filter_append s t

/-- The text read in a state and not yet part of a token. -/
def pending : LexState → PyStr
  | .start => []
  | .name read | .number read => read
  | .string read => quote :: quoted read
  | .quote read => quote :: (quoted read ++ [quote])
  | .operator first => [first]

/-- The two characters of an operator are its text. -/
theorem operatorOf_text {c second : CodePoint} {t : Token} (h : operatorOf c = some (second, t)) :
    t.text = [c, second] ∧ t.WellFormed := by
  have hcp : ∀ n : Nat, n < 0x110000 → c.val = n → cp n = c := fun n _ hv => cp_eq_of_val hv.symm
  unfold operatorOf at h
  split at h
  · next hc =>
    cases h
    rw [← hcp _ (by decide) hc]
    exact ⟨rfl, trivial⟩
  split at h
  · next hc =>
    cases h
    rw [← hcp _ (by decide) hc]
    exact ⟨rfl, trivial⟩
  split at h
  · next hc =>
    cases h
    rw [← hcp _ (by decide) hc]
    exact ⟨rfl, trivial⟩
  split at h
  · next hc =>
    cases h
    rw [← hcp _ (by decide) hc]
    exact ⟨rfl, trivial⟩
  · cases h

theorem isSpace_of_isGap {c : CodePoint} (h : isGap c = true) : isSpace c = true := by
  unfold isGap at h
  exact (Bool.and_eq_true _ _ ▸ h).1

/-- Entering a character loses nothing but blanks. -/
theorem enter_text (c : CodePoint) : dropSpaces (tokensText (enter c).1 ++ pending (enter c).2)
    = dropSpaces [c] := by
  unfold enter
  split
  · next hblank => simp [tokensText, pending, dropSpaces, isSpace_of_isGap hblank]
  split
  · next hquote => rw [hquote]; rfl
  split
  · next hdot => rw [← cp_eq_of_val hdot.symm]; rfl
  split
  · rfl
  split <;> rfl

theorem enter_wellFormed (c : CodePoint) : ∀ t ∈ (enter c).1, t.WellFormed := by
  unfold enter
  repeat' split
  all_goals simp [Token.WellFormed]

theorem quoted_append (s t : PyStr) : quoted (s ++ t) = quoted s ++ quoted t := by
  unfold quoted
  rw [List.flatMap_append]

/-- One character goes into the tokens put out or into what is pending. -/
theorem step_text {st st' : LexState} {c : CodePoint} {out : List Token}
    (h : step st c = some (out, st')) :
    dropSpaces (tokensText out ++ pending st') = dropSpaces (pending st ++ [c]) := by
  have hclose : ∀ t : Token, t.text = pending st → (out, st') = close t c →
      dropSpaces (tokensText out ++ pending st') = dropSpaces (pending st ++ [c]) := by
    intro t ht hout
    cases hout
    rw [← ht, dropSpaces_append t.text, ← enter_text c, ← dropSpaces_append]
    simp [tokensText]
  cases st with
  | start =>
    have hout : enter c = (out, st') := Option.some.inj h
    have htext := enter_text c
    rw [hout] at htext
    exact htext
  | name read =>
    simp only [step] at h
    split at h
    · cases h; rfl
    split at h
    · exact hclose (.name read) rfl (Option.some.inj h).symm
    · cases h
  | number read =>
    simp only [step] at h
    split at h
    · cases h; rfl
    split at h
    · exact hclose (.number read) rfl (Option.some.inj h).symm
    · cases h
  | string read =>
    simp only [step] at h
    split at h
    · next hc => cases h; rw [hc]; rfl
    · next hc =>
      cases h
      simp [tokensText, pending, quoted, hc]
  | quote read =>
    simp only [step] at h
    split at h
    · next hc =>
      cases h
      simp [tokensText, pending, quoted_append, hc]
      simp [quoted]
    · exact hclose (.string read) rfl (Option.some.inj h).symm
  | operator first =>
    simp only [step] at h
    split at h
    · next second token hop =>
      split at h
      · next hc =>
        cases h
        simp [tokensText, pending, (operatorOf_text hop).1, hc]
      · cases h
    · cases h

/-- The lexer only puts out tokens that it could have read from their own text; one step at a
time. -/
theorem step_wellFormed {st st' : LexState} {c : CodePoint} {out : List Token}
    (h : step st c = some (out, st')) : ∀ t ∈ out, t.WellFormed := by
  have hclose : ∀ t : Token, t.WellFormed → (out, st') = close t c → ∀ u ∈ out, u.WellFormed := by
    intro t ht hout
    cases hout
    exact List.forall_mem_cons.mpr ⟨ht, enter_wellFormed c⟩
  cases st with
  | start =>
    have hout : enter c = (out, st') := Option.some.inj h
    have hwf := enter_wellFormed c
    rw [hout] at hwf
    exact hwf
  | name read =>
    simp only [step] at h
    split at h
    · cases h; simp
    split at h
    · next hname => exact hclose (.name read) hname (Option.some.inj h).symm
    · cases h
  | number read =>
    simp only [step] at h
    split at h
    · cases h; simp
    split at h
    · next hnumber => exact hclose (.number read) hnumber (Option.some.inj h).symm
    · cases h
  | string read =>
    simp only [step] at h
    split at h <;> cases h <;> simp
  | quote read =>
    simp only [step] at h
    split at h
    · cases h; simp
    · exact hclose (.string read) trivial (Option.some.inj h).symm
  | operator first =>
    simp only [step] at h
    split at h
    · next second token hop =>
      split at h
      · cases h
        simpa using (operatorOf_text hop).2
      · cases h
    · cases h

/-- What the lexer puts out at the end is the text that was pending. -/
theorem finish_text {st : LexState} {ts : List Token} (h : finish st = some ts) :
    tokensText ts = pending st ∧ ∀ t ∈ ts, t.WellFormed := by
  cases st with
  | start => cases h; simp [tokensText, pending]
  | name read =>
    simp only [finish] at h
    split at h
    · next hname => cases h; simp [tokensText, pending, Token.text, Token.WellFormed, hname]
    · cases h
  | number read =>
    simp only [finish] at h
    split at h
    · next hnumber => cases h; simp [tokensText, pending, Token.text, Token.WellFormed, hnumber]
    · cases h
  | quote read => cases h; simp [tokensText, pending, Token.text, Token.WellFormed]
  | string read => cases h
  | operator first => cases h

/-- The tokens of a text spell it, up to whitespace. -/
theorem lexFrom_spells {st : LexState} {s : PyStr} {ts : List Token} (h : lexFrom st s = some ts) :
    dropSpaces (tokensText ts) = dropSpaces (pending st ++ s) ∧ ∀ t ∈ ts, t.WellFormed := by
  induction s generalizing st ts with
  | nil =>
    obtain ⟨htext, hwf⟩ := finish_text h
    exact ⟨by rw [htext, List.append_nil], hwf⟩
  | cons c s ih =>
    rw [lexFrom] at h
    cases hstep : step st c with
    | none => simp [hstep] at h
    | some next =>
      obtain ⟨out, st'⟩ := next
      simp only [hstep, Option.map_eq_some_iff] at h
      obtain ⟨us, hus, rfl⟩ := h
      obtain ⟨htext, hwf⟩ := ih hus
      constructor
      · have happend : pending st ++ c :: s = pending st ++ [c] ++ s := by simp
        rw [happend, dropSpaces_append (pending st ++ [c]), ← step_text hstep, ← dropSpaces_append,
          List.append_assoc, dropSpaces_append (tokensText out), ← htext, ← dropSpaces_append]
        simp [tokensText]
      · intro t ht
        rcases List.mem_append.mp ht with ht | ht
        · exact step_wellFormed hstep t ht
        · exact hwf t ht

/-- The token that is read when whitespace is dropped everywhere, in strings too. -/
def Token.squeeze : Token → Token
  | .string w => .string (dropSpaces w)
  | t => t

theorem dropSpaces_eq_self {s : PyStr} (h : ∀ c ∈ s, isSpace c = false) : dropSpaces s = s := by
  apply List.filter_eq_self.mpr
  intro c hc
  simp [h c hc]

/-- Quoting and deleting blanks commute, since a quote is no blank. -/
theorem dropSpaces_quoted (s : PyStr) : dropSpaces (quoted s) = quoted (dropSpaces s) := by
  induction s with
  | nil => rfl
  | cons c s ih =>
    have hhead : quoted (c :: s) = quoted [c] ++ quoted s := quoted_append [c] s
    have hdrop : dropSpaces (c :: s) = dropSpaces [c] ++ dropSpaces s := dropSpaces_append [c] s
    rw [hhead, hdrop, dropSpaces_append, ih, quoted_append]
    congr 1
    by_cases hc : c = quote
    · rw [hc]; rfl
    · cases hspace : isSpace c <;> simp [quoted, dropSpaces, hc, hspace]

theorem isSpace_of_isNameChar {c : CodePoint} (h : isNameChar c = true) : isSpace c = false := by
  simp [isNameChar, isNameStart, isDigit, isLetter, isSpace] at h ⊢
  omega

theorem isSpace_of_isNumberChar {c : CodePoint} (h : isNumberChar c = true) :
    isSpace c = false := by
  simp [isNumberChar, isNumberStart, isDigit, isLetter, isSpace] at h ⊢
  omega

/-- Deleting the blanks of a token's text gives the text of the squeezed token: only the inside of a
string literal changes. -/
theorem dropSpaces_text {t : Token} (h : t.WellFormed) : dropSpaces t.text = t.squeeze.text := by
  cases t with
  | name n =>
    apply dropSpaces_eq_self
    cases n with
    | nil => intro c hc; cases hc
    | cons c s =>
      simp only [Token.WellFormed, isName, Bool.and_eq_true, List.all_eq_true] at h
      exact List.forall_mem_cons.mpr
        ⟨isSpace_of_isNameChar (isNameChar_of_isNameStart h.1), fun d hd =>
          isSpace_of_isNameChar (h.2 d hd)⟩
  | number n =>
    apply dropSpaces_eq_self
    cases n with
    | nil => intro c hc; cases hc
    | cons c s =>
      simp only [Token.WellFormed, isNumber, Bool.and_eq_true, List.all_eq_true] at h
      have hstart : isNumberChar c = true := by
        unfold isNumberChar
        rw [h.1, Bool.true_or, Bool.true_or]
      exact List.forall_mem_cons.mpr
        ⟨isSpace_of_isNumberChar hstart, fun d hd => isSpace_of_isNumberChar (h.2 d hd)⟩
  | string w =>
    show dropSpaces ([quote] ++ (quoted w ++ [quote])) = [quote]
      ++ (quoted (dropSpaces w) ++ [quote])
    rw [dropSpaces_append, dropSpaces_append, dropSpaces_quoted]
    rfl
  | dot | eq | ne | and | or => rfl

theorem follows_squeeze (a b : Token) : follows a.squeeze b.squeeze = follows a b := by
  cases a <;> cases b <;> rfl

theorem neighboursFit_squeeze (ts : List Token) :
    neighboursFit (ts.map Token.squeeze) = neighboursFit ts := by
  induction ts with
  | nil => rfl
  | cons a ts ih =>
    cases ts with
    | nil => rfl
    | cons b ts =>
      simp only [List.map_cons, neighboursFit, follows_squeeze] at ih ⊢
      rw [ih]

/-- What an expression's tokens have in common with its text. -/
structure Spelled (s : PyStr) (ts : List Token) : Prop where
  text : tokensText (ts.map Token.squeeze) = dropSpaces s
  wellFormed : ∀ t ∈ ts.map Token.squeeze, t.WellFormed
  fit : neighboursFit (ts.map Token.squeeze) = true

/-- Without its whitespace an expression is the print of its squeezed tokens. -/
theorem spelled_of_tokens {s : PyStr} {ts : List Token} (h : tokens s = some ts) :
    Spelled s ts := by
  unfold tokens at h
  split at h
  · next us hlex =>
    split at h
    · next hfit =>
      obtain rfl := Option.some.inj h
      obtain ⟨htext, hwf⟩ := lexFrom_spells hlex
      simp only [Bool.and_eq_true] at hfit
      refine ⟨?_, ?_, (neighboursFit_squeeze us).trans hfit.1.1⟩
      · have hsqueeze : ∀ {vs : List Token}, (∀ t ∈ vs, t.WellFormed) →
            tokensText (vs.map Token.squeeze) = dropSpaces (tokensText vs) := by
          intro vs hvs
          induction vs with
          | nil => rfl
          | cons v vs ih =>
            obtain ⟨hv, hvs⟩ := List.forall_mem_cons.mp hvs
            have hcons : tokensText (v :: vs) = v.text ++ tokensText vs := rfl
            rw [hcons, dropSpaces_append, dropSpaces_text hv, ← ih hvs]
            rfl
        rw [hsqueeze hwf, htext]
        rfl
      · intro t ht
        obtain ⟨u, hu, rfl⟩ := List.mem_map.mp ht
        have huwf := hwf u hu
        cases u <;> exact huwf
    · cases h
  · cases h

/-- An expression has no character outside its strings that no token starts with:
its text cannot go on with one after tokens that fit. -/
theorem Spelled.not_prefix {s rest : PyStr} {ts us : List Token} (h : Spelled s ts)
    (hwf : ∀ t ∈ us, t.WellFormed) (hfit : neighboursFit us = true)
    (hends : ∀ t ∈ us.getLast?, t.Ends rest)
    (hbad : lexFrom .start rest = none) : dropSpaces s ≠ tokensText us ++ rest := by
  intro heq
  have hread := lexFrom_tokensText h.wellFormed h.fit ends_nil
  rw [List.append_nil, h.text, heq, lexFrom_tokensText hwf hfit hends, hbad] at hread
  exact absurd hread (by simp [lexFrom, finish])

/-- An expression whose squeezed text is printed from tokens that fit has these tokens, squeezed. -/
theorem Spelled.map_squeeze {s : PyStr} {ts us : List Token} (h : Spelled s ts)
    (hwf : ∀ t ∈ us, t.WellFormed) (hfit : neighboursFit us = true)
    (htext : dropSpaces s = tokensText us) :
    ts.map Token.squeeze = us :=
  tokensText_injective h.wellFormed hwf h.fit hfit (h.text.trans htext)

/-! ## Conjunctions and disjunctions -/

/-- A chain of `&&` is truthy if all of its parts are. -/
theorem isTruthy_andAll {vs : List (Value N)} (h : vs ≠ []) :
    isTruthy host (andAll host vs) = vs.all (isTruthy host) := by
  induction vs with
  | nil => exact absurd rfl h
  | cons v vs ih =>
    cases vs with
    | nil => simp [andAll]
    | cons w vs =>
      have hdef : andAll host (v :: w :: vs) = if isTruthy host v then
        andAll host (w :: vs) else v := rfl
      rw [hdef, List.all_cons]
      cases hv : isTruthy host v
      · simp [hv]
      · simpa using ih (by simp)

/-- A chain of `||` is truthy if one of its parts is. -/
theorem isTruthy_orAll {vs : List (Value N)} (h : vs ≠ []) :
    isTruthy host (orAll host vs) = vs.any (isTruthy host) := by
  induction vs with
  | nil => exact absurd rfl h
  | cons v vs ih =>
    cases vs with
    | nil => simp [orAll]
    | cons w vs =>
      have hdef : orAll host (v :: w :: vs) = if isTruthy host v then v else
        orAll host (w :: vs) := rfl
      rw [hdef, List.any_cons]
      cases hv : isTruthy host v
      · simpa using ih (by simp)
      · simp [hv]

/-- Every element of a list that is mapped as a whole has its image in the result. -/
theorem mem_of_mapM_eq_some {α β : Type} {f : α → Option β} {xs : List α} {ys : List β}
    (h : xs.mapM f = some ys) {x : α} (hx : x ∈ xs) : ∃ y ∈ ys, f x = some y := by
  induction xs generalizing ys with
  | nil => cases hx
  | cons a xs ih =>
    simp only [List.mapM_cons, Option.pure_def, Option.bind_eq_bind, Option.bind_eq_some_iff,
      Option.some.injEq] at h
    obtain ⟨b, hb, bs, hbs, rfl⟩ := h
    rcases List.mem_cons.mp hx with rfl | hx
    · exact ⟨b, List.mem_cons_self .., hb⟩
    · obtain ⟨y, hy, hfy⟩ := ih hbs hx
      exact ⟨y, List.mem_cons_of_mem _ hy, hfy⟩

/-- A conjunction counts as false as soon as one of its parts does. -/
theorem conjunction_falsy {ts part : List Token} {v w : Value N}
    (hv : conjunction host ctx ts = some v)
    (hpart : part ∈ ts.splitOn .and) (hw : comparison host ctx part = some w)
    (hfalse : isTruthy host w = false) :
    isTruthy host v = false := by
  unfold conjunction at hv
  obtain ⟨vs, hvs, rfl⟩ := Option.map_eq_some_iff.mp hv
  obtain ⟨w', hmem, hw'⟩ := mem_of_mapM_eq_some hvs hpart
  obtain rfl := Option.some.inj (hw.symm.trans hw')
  rw [isTruthy_andAll host (List.ne_nil_of_mem hmem), List.all_eq_false]
  exact ⟨w, hmem, by simp [hfalse]⟩

/-- Without `||` a disjunction is its only part. -/
theorem disjunction_of_not_mem {ts : List Token} (h : .or ∉ ts) :
    disjunction host ctx ts = conjunction host ctx ts := by
  have hsplit : ts.splitOn .or = [ts] := by
    apply List.splitOnP_eq_singleton
    intro t ht
    rw [beq_eq_false_iff_ne]
    rintro rfl
    exact h ht
  unfold disjunction
  rw [hsplit, List.mapM_cons, List.mapM_nil]
  cases hconj : conjunction host ctx ts <;> simp [orAll]

/-! ## Conditions -/

/-- A text without the whitespace around it. -/
def trimGaps (s : PyStr) : PyStr := ((s.dropWhile isGap).reverse.dropWhile isGap).reverse

/-- `$\x7b\x7b ... \x7d\x7d`, the mark of an expression, which a condition may leave out. -/
def isMarked (s : PyStr) : Bool := (lit "$\x7b\x7b").isPrefixOf s && (lit "\x7d\x7d").isSuffixOf s

def marked (s : PyStr) : PyStr := (s.drop 3).dropLast.dropLast

/-- The expression of an `if:` condition. -/
def ifExpression (condition : PyStr) : PyStr :=
  let s := trimGaps condition
  if isMarked s then marked s else s

/-- A name that starts wrong never becomes one. -/
theorem lexFrom_badName {read s : PyStr} (hread : read ≠ []) (h : isName read = false)
    (hall : ∀ t : PyStr, isName (read ++ t) = false) : lexFrom (.name read) s = none := by
  induction s generalizing read with
  | nil => simp [lexFrom, finish, h]
  | cons c s ih =>
    rw [lexFrom]
    by_cases hstop : isStop c = true
    · simp [step, hstop, h]
    · have hnext : ∀ t : PyStr, isName (read ++ [c] ++ t) = false := by
        intro t
        rw [List.append_assoc]
        exact hall _
      have hbad : isName (read ++ [c]) = false := hall [c]
      simp [step, hstop, ih (by simp) hbad hnext]

/-- No expression starts with a character that starts no token. -/
theorem lexFrom_bad {c : CodePoint} (s : PyStr) (henter : enter c = ([], .name [c]))
    (hstart : isNameStart c = false) : lexFrom .start (c :: s) = none := by
  have hstep : step .start c = some ([], .name [c]) := congrArg some henter
  rw [lexFrom_cons s hstep, lexFrom_badName (by simp) (by simp [isName, hstart]) fun t => by
    simp [isName, hstart]]
  rfl

end SddGov.Actions
