import SddGov.Python.Json

/-!
# `json.loads`

The recursive-descent scanner of the `json` module over Python text: strings
reject control characters, `\u` escapes join surrogate pairs, numbers follow
the module's own grammar, `NaN` and the infinities are accepted, and an
object's members come back as the list of pairs the text names. `loads`
collapses duplicate names the way a `dict` does; `loadsUnique` is the variant
whose `object_pairs_hook` refuses them.

`limit` is the interpreter's recursion limit for nested containers, and an
integer of more than `maxStrDigits` digits is refused with a plain
`ValueError`, not with a `JSONDecodeError`.
-/

namespace SddGov.Python

/-- How `json.loads` can fail. -/
inductive JsonError
  | decode
  | digits
  | recursion
  deriving DecidableEq, Repr

/-- JSON whitespace. -/
def isJsonSpace (c : CodePoint) : Bool :=
  c.val == 0x20 || c.val == 0x09 || c.val == 0x0A || c.val == 0x0D

/-- Skip whitespace. -/
def skipWs (s : PyStr) : PyStr := s.dropWhile isJsonSpace

/-- The value of an ASCII digit. -/
def digitVal? (c : CodePoint) : Option Nat :=
  if 0x30 ≤ c.val ∧ c.val ≤ 0x39 then some (c.val - 0x30) else none

/-- The value of a hexadecimal digit. -/
def hexVal? (c : CodePoint) : Option Nat :=
  if 0x30 ≤ c.val ∧ c.val ≤ 0x39 then some (c.val - 0x30)
  else if 0x61 ≤ c.val ∧ c.val ≤ 0x66 then some (c.val - 0x61 + 10)
  else if 0x41 ≤ c.val ∧ c.val ≤ 0x46 then some (c.val - 0x41 + 10)
  else none

/-! ## Strings -/

/-- Four hexadecimal digits. -/
def hex4? : PyStr → Option (Nat × PyStr)
  | a :: b :: c :: d :: rest =>
    match hexVal? a, hexVal? b, hexVal? c, hexVal? d with
    | some a, some b, some c, some d => some (((a * 16 + b) * 16 + c) * 16 + d, rest)
    | _, _, _, _ => none
  | _ => none

/-- The character a one-letter escape stands for. -/
def simpleEscape? (c : CodePoint) : Option CodePoint :=
  if c.val = 0x22 then some (cp 0x22)
  else if c.val = 0x5C then some (cp 0x5C)
  else if c.val = 0x2F then some (cp 0x2F)
  else if c.val = 0x62 then some (cp 0x08)
  else if c.val = 0x66 then some (cp 0x0C)
  else if c.val = 0x6E then some (cp 0x0A)
  else if c.val = 0x72 then some (cp 0x0D)
  else if c.val = 0x74 then some (cp 0x09)
  else none

/-- A low surrogate escape at the front of the text. -/
def lowSurrogate? : PyStr → Option (Nat × PyStr)
  | a :: b :: rest =>
    if a.val = 0x5C ∧ b.val = 0x75 then
      match hex4? rest with
      | some (n, rest) => if 0xDC00 ≤ n ∧ n ≤ 0xDFFF then some (n, rest) else none
      | none => none
    else none
  | _ => none

/-- The body of a string after its opening quote; the fuel bounds its length. -/
def parseStringBody : Nat → PyStr → Option (PyStr × PyStr)
  | 0, _ => none
  | _ + 1, [] => none
  | fuel + 1, c :: rest =>
    if c.val = 0x22 then some ([], rest)
    else if c.val = 0x5C then
      match rest with
      | [] => none
      | e :: rest =>
        if e.val = 0x75 then
          match hex4? rest with
          | none => none
          | some (n, rest) =>
            if 0xD800 ≤ n ∧ n ≤ 0xDBFF then
              match lowSurrogate? rest with
              | some (m, rest) =>
                (parseStringBody fuel rest).map fun r =>
                  (cp (0x10000 + (n - 0xD800) * 0x400 + (m - 0xDC00)) :: r.1, r.2)
              | none => (parseStringBody fuel rest).map fun r => (cp n :: r.1, r.2)
            else (parseStringBody fuel rest).map fun r => (cp n :: r.1, r.2)
        else
          match simpleEscape? e with
          | some ch => (parseStringBody fuel rest).map fun r => (ch :: r.1, r.2)
          | none => none
    else if c.val < 0x20 then none
    else (parseStringBody fuel rest).map fun r => (c :: r.1, r.2)

/-- A string after its opening quote. -/
def parseString (s : PyStr) : Option (PyStr × PyStr) := parseStringBody s.length s

/-! ## Numbers -/

/-- The longest run of ASCII digits: their values and the rest. -/
def spanDigits : PyStr → List Nat × PyStr
  | [] => ([], [])
  | c :: rest =>
    match digitVal? c with
    | some d => (d :: (spanDigits rest).1, (spanDigits rest).2)
    | none => ([], c :: rest)

/-- The natural number with these decimal digits, most significant first. -/
def ofDigits (ds : List Nat) : Nat := ds.foldl (fun n d => n * 10 + d) 0

/-- `0` or a digit run that does not start with `0`. -/
def parseIntPart : PyStr → Option (List Nat × PyStr)
  | [] => none
  | c :: rest =>
    match digitVal? c with
    | none => none
    | some 0 => some ([0], rest)
    | some d => some (d :: (spanDigits rest).1, (spanDigits rest).2)

/-- `.` and at least one digit. -/
def parseFrac? : PyStr → Option (List Nat × PyStr)
  | c :: rest =>
    if c.val = 0x2E ∧ (spanDigits rest).1 ≠ [] then some (spanDigits rest) else none
  | [] => none

/-- The digits of an exponent after its sign. -/
def parseExpDigits? (neg : Bool) (s : PyStr) : Option (Int × PyStr) :=
  if (spanDigits s).1 = [] then none
  else
    let n : Int := ofDigits (spanDigits s).1
    some (if neg then -n else n, (spanDigits s).2)

/-- `e` or `E`, a sign and at least one digit. -/
def parseExp? : PyStr → Option (Int × PyStr)
  | c :: rest =>
    if c.val = 0x65 ∨ c.val = 0x45 then
      match rest with
      | s :: rest' =>
        if s.val = 0x2B then parseExpDigits? false rest'
        else if s.val = 0x2D then parseExpDigits? true rest'
        else parseExpDigits? false rest
      | [] => none
    else none
  | [] => none

/-- `float` of a sign and an unsigned decimal. -/
def readFloat (neg : Bool) (d : Decimal) : PyFloat :=
  match d.read with
  | some mag => .finite neg mag
  | none => .inf neg

/-- A number after its sign. -/
def parseUnsigned (neg : Bool) (s : PyStr) : Except JsonError (Json × PyStr) :=
  match parseIntPart s with
  | none => .error .decode
  | some (ip, s1) =>
    let frac := parseFrac? s1
    let fd := (frac.map Prod.fst).getD []
    let s2 := (frac.map Prod.snd).getD s1
    let ex := parseExp? s2
    let s3 := (ex.map Prod.snd).getD s2
    if frac.isNone ∧ ex.isNone then
      if maxStrDigits < ip.length then .error .digits
      else .ok (.int (if neg then -(ofDigits ip : Int) else ofDigits ip), s3)
    else
      .ok (.float (readFloat neg
        ⟨ofDigits (ip ++ fd), (ex.map Prod.fst).getD 0 - fd.length⟩), s3)

/-- Drop a fixed prefix. -/
def dropPrefix? (p s : PyStr) : Option PyStr :=
  if p.isPrefixOf s then some (s.drop p.length) else none

/-- A number or one of the float constants. -/
def parseNumber (s : PyStr) : Except JsonError (Json × PyStr) :=
  match dropPrefix? (lit "NaN") s, dropPrefix? (lit "Infinity") s,
      dropPrefix? (lit "-Infinity") s with
  | some rest, _, _ => .ok (.float .nan, rest)
  | none, some rest, _ => .ok (.float (.inf false), rest)
  | none, none, some rest => .ok (.float (.inf true), rest)
  | none, none, none =>
    match s with
    | [] => .error .decode
    | c :: rest => if c.val = 0x2D then parseUnsigned true rest else parseUnsigned false s

/-! ## Containers -/

/-- A parser of one value. -/
abbrev ValueParser := PyStr → Except JsonError (Json × PyStr)

/-- The elements of a nonempty array, up to its `]`. -/
def parseElems (pv : ValueParser) : Nat → PyStr → Except JsonError (List Json × PyStr)
  | 0, _ => .error .decode
  | fuel + 1, s =>
    match pv s with
    | .error e => .error e
    | .ok (v, s) =>
      match skipWs s with
      | [] => .error .decode
      | c :: rest =>
        if c.val = 0x5D then .ok ([v], rest)
        else if c.val = 0x2C then
          match parseElems pv fuel (skipWs rest) with
          | .error e => .error e
          | .ok (vs, s) => .ok (v :: vs, s)
        else .error .decode

/-- The members of a nonempty object, up to its closing brace. -/
def parseMembers (pv : ValueParser) : Nat → PyStr →
    Except JsonError (List (PyStr × Json) × PyStr)
  | 0, _ => .error .decode
  | _ + 1, [] => .error .decode
  | fuel + 1, q :: s =>
    if q.val ≠ 0x22 then .error .decode
    else match parseString s with
      | none => .error .decode
      | some (k, s) =>
        match skipWs s with
        | [] => .error .decode
        | c :: s =>
          if c.val ≠ 0x3A then .error .decode
          else match pv (skipWs s) with
            | .error e => .error e
            | .ok (v, s) =>
              match skipWs s with
              | [] => .error .decode
              | c :: rest =>
                if c.val = 0x7D then .ok ([(k, v)], rest)
                else if c.val = 0x2C then
                  match parseMembers pv fuel (skipWs rest) with
                  | .error e => .error e
                  | .ok (ms, s) => .ok ((k, v) :: ms, s)
                else .error .decode

/-- An array after its opening bracket. -/
def parseArray (pv : ValueParser) (s : PyStr) : Except JsonError (Json × PyStr) :=
  match skipWs s with
  | [] => .error .decode
  | c :: rest =>
    if c.val = 0x5D then .ok (.arr [], rest)
    else (parseElems pv s.length (c :: rest)).map fun r => (.arr r.1, r.2)

/-- An object after its opening brace. -/
def parseObject (pv : ValueParser) (s : PyStr) : Except JsonError (Json × PyStr) :=
  match skipWs s with
  | [] => .error .decode
  | c :: rest =>
    if c.val = 0x7D then .ok (.obj [], rest)
    else (parseMembers pv s.length (c :: rest)).map fun r => (.obj r.1, r.2)

/-- One value at the front of the text; the fuel is the recursion limit. -/
def parseValue : Nat → ValueParser
  | _, [] => .error .decode
  | depth, c :: rest =>
    if c.val = 0x22 then
      match parseString rest with
      | some (s, rest) => .ok (.str s, rest)
      | none => .error .decode
    else if c.val = 0x7B then
      match depth with
      | 0 => .error .recursion
      | depth + 1 => parseObject (parseValue depth) rest
    else if c.val = 0x5B then
      match depth with
      | 0 => .error .recursion
      | depth + 1 => parseArray (parseValue depth) rest
    else
      match dropPrefix? (lit "null") (c :: rest), dropPrefix? (lit "true") (c :: rest),
          dropPrefix? (lit "false") (c :: rest) with
      | some s, _, _ => .ok (.null, s)
      | none, some s, _ => .ok (.bool true, s)
      | none, none, some s => .ok (.bool false, s)
      | none, none, none => parseNumber (c :: rest)

/-- The whole text is one value; objects keep every pair they name. -/
def parse (limit : Nat) (s : PyStr) : Except JsonError Json :=
  -- a leading byte order mark is refused before anything is scanned
  if s.head? = some (cp 0xFEFF) then .error .decode
  else match parseValue limit (skipWs s) with
    | .error e => .error e
    | .ok (v, rest) => if (skipWs rest).isEmpty then .ok v else .error .decode

/-! ## Duplicate names -/

/-- The `dict` of a list of pairs: the last value wins, at the first one's place. -/
def dictOf (m : List (PyStr × Json)) : List (PyStr × Json) :=
  m.foldl (fun acc kv => setMember kv.1 kv.2 acc) []

mutual
/-- Collapse the duplicate names of every object. -/
def collapse : Json → Json
  | .arr xs => .arr (collapseList xs)
  | .obj m => .obj (dictOf (collapseMembers m))
  | v => v

def collapseList : List Json → List Json
  | [] => []
  | x :: xs => collapse x :: collapseList xs

def collapseMembers : List (PyStr × Json) → List (PyStr × Json)
  | [] => []
  | (k, v) :: rest => (k, collapse v) :: collapseMembers rest
end

mutual
/-- No object of the value names a member twice. -/
def uniqueNames : Json → Bool
  | .arr xs => uniqueNamesList xs
  | .obj m => uniqueNamesMembers m
  | _ => true

def uniqueNamesList : List Json → Bool
  | [] => true
  | x :: xs => uniqueNames x && uniqueNamesList xs

def uniqueNamesMembers : List (PyStr × Json) → Bool
  | [] => true
  | (k, v) :: rest => uniqueNames v && !(keys rest).contains k && uniqueNamesMembers rest
end

/-- `json.loads(text)`. -/
def loads (limit : Nat) (s : PyStr) : Except JsonError Json := (parse limit s).map collapse

end SddGov.Python
