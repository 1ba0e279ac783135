import Mathlib.Data.Nat.Digits.Defs
import Mathlib.Data.List.Sort
import SddGov.Python.Float

/-!
# JSON values as Python holds them, and `json.dumps`

`Json` is what `json.loads` returns: `int` and `float` are different types,
and an object is the list of its members in insertion order. Python's `==`
(`pyEq`) identifies `1`, `1.0` and `True` and ignores the order of members;
`canon`, which only sorts members by name, keeps the types apart.

`dumps` is `json.dumps(value, ensure_ascii=False, sort_keys=True,
separators=(",", ":"), allow_nan=False)`, the canonical form the programs
hash and sign.
-/

namespace SddGov.Python

/-- A JSON value as Python holds it. -/
inductive Json
  | null
  | bool (b : Bool)
  | int (n : Int)
  | float (x : PyFloat)
  | str (s : PyStr)
  | arr (xs : List Json)
  | obj (members : List (PyStr × Json))

instance : Inhabited Json := ⟨.null⟩

/-! ## Equal as values -/

mutual
/-- The same value, the order of members and the types of numbers included. -/
def Json.same : Json → Json → Bool
  | .null, .null => true
  | .bool a, .bool b => a == b
  | .int a, .int b => a == b
  | .float a, .float b => a == b
  | .str a, .str b => a == b
  | .arr xs, .arr ys => Json.sameList xs ys
  | .obj a, .obj b => Json.sameMembers a b
  | _, _ => false

def Json.sameList : List Json → List Json → Bool
  | [], [] => true
  | x :: xs, y :: ys => Json.same x y && Json.sameList xs ys
  | _, _ => false

def Json.sameMembers : List (PyStr × Json) → List (PyStr × Json) → Bool
  | [], [] => true
  | (k, v) :: a, (l, w) :: b => k == l && Json.same v w && Json.sameMembers a b
  | _, _ => false
end

mutual
theorem Json.same_iff (v w : Json) : v.same w = true ↔ v = w := by
  cases v <;> cases w <;> simp [Json.same, Json.sameList_iff, Json.sameMembers_iff]

theorem Json.sameList_iff (xs ys : List Json) : Json.sameList xs ys = true ↔ xs = ys := by
  cases xs with
  | nil => cases ys <;> simp [Json.sameList]
  | cons x xs =>
    cases ys with
    | nil => simp [Json.sameList]
    | cons y ys => simp [Json.sameList, Json.same_iff x y, Json.sameList_iff xs ys]

theorem Json.sameMembers_iff (a b : List (PyStr × Json)) :
    Json.sameMembers a b = true ↔ a = b := by
  cases a with
  | nil => cases b <;> simp [Json.sameMembers]
  | cons kv a =>
    obtain ⟨k, v⟩ := kv
    cases b with
    | nil => simp [Json.sameMembers]
    | cons lw b =>
      obtain ⟨l, w⟩ := lw
      simp [Json.sameMembers, Json.same_iff v w, Json.sameMembers_iff a b, and_assoc]
end

instance : DecidableEq Json := fun v w => decidable_of_iff _ (Json.same_iff v w)

/-! ## Objects -/

/-- The members of an object in insertion order. -/
abbrev Members := List (PyStr × Json)

/-- The value of the first member named `key`. -/
def lookup (key : PyStr) : List (PyStr × Json) → Option Json
  | [] => none
  | (k, v) :: rest => if k = key then some v else lookup key rest

/-- `key in members`. -/
def hasKey (key : PyStr) (members : List (PyStr × Json)) : Bool := (lookup key members).isSome

/-- The names of the members. -/
def keys (members : List (PyStr × Json)) : List PyStr := members.map Prod.fst

/-- `members.get(key)`: a missing member reads as `None`. -/
def get (key : PyStr) (members : List (PyStr × Json)) : Json := (lookup key members).getD .null

/-- `set(members) == set(names)`. -/
def keysEq (members : List (PyStr × Json)) (names : List PyStr) : Bool :=
  (keys members).all (names.contains ·) && names.all ((keys members).contains ·)

/-- `set(members) <= set(names)`. -/
def keysWithin (members : List (PyStr × Json)) (names : List PyStr) : Bool :=
  (keys members).all (names.contains ·)

/-- `members[key] = value`: replaces in place or appends. -/
def setMember (key : PyStr) (value : Json) : List (PyStr × Json) → List (PyStr × Json)
  | [] => [(key, value)]
  | (k, v) :: rest => if k = key then (k, value) :: rest else (k, v) :: setMember key value rest

theorem lookup_setMember (key : PyStr) (value : Json) (m : List (PyStr × Json)) :
    lookup key (setMember key value m) = some value := by
  induction m with
  | nil => simp [setMember, lookup]
  | cons kv m ih =>
    obtain ⟨k, v⟩ := kv
    rw [setMember]
    split
    · next h => simp [lookup, h]
    · next h => simp [lookup, h, ih]

theorem lookup_setMember_ne {key other : PyStr} (value : Json) (m : List (PyStr × Json))
    (hne : other ≠ key) : lookup other (setMember key value m) = lookup other m := by
  induction m with
  | nil => simp [setMember, lookup, Ne.symm hne]
  | cons kv m ih =>
    obtain ⟨k, v⟩ := kv
    rw [setMember]
    split
    · next h => simp [lookup, h, Ne.symm hne]
    · simp [lookup, ih]

/-- Setting a member that is there keeps the names. -/
theorem keys_setMember {key : PyStr} {value : Json} {m : List (PyStr × Json)}
    (h : hasKey key m = true) : keys (setMember key value m) = keys m := by
  induction m with
  | nil => exact absurd h (by simp [hasKey, lookup])
  | cons kv m ih =>
    obtain ⟨k, v⟩ := kv
    unfold hasKey at h
    rw [lookup] at h
    rw [setMember]
    split
    · rfl
    · next hne =>
      rw [if_neg hne] at h
      exact congrArg (k :: ·) (ih h)

theorem get_setMember (key : PyStr) (value : Json) (m : List (PyStr × Json)) :
    get key (setMember key value m) = value := by
  unfold get
  rw [lookup_setMember]
  rfl

theorem get_setMember_ne {key other : PyStr} (value : Json) (m : List (PyStr × Json))
    (hne : other ≠ key) : get other (setMember key value m) = get other m := by
  unfold get
  rw [lookup_setMember_ne value m hne]

/-- A name is looked up if it is there. -/
theorem lookup_isSome_iff (key : PyStr) (m : List (PyStr × Json)) :
    (lookup key m).isSome = true ↔ key ∈ keys m := by
  induction m with
  | nil => simp [lookup, keys]
  | cons kv m ih =>
    obtain ⟨k, v⟩ := kv
    unfold keys at ih ⊢
    rw [lookup]
    split
    · next h => simp [h]
    · next h =>
      rw [ih]
      simp [Ne.symm h]

/-! ## Python equality and truth -/

/-- The number a value is, when it is one: `True` is 1. -/
def Json.num? : Json → Option ℚ
  | .bool b => some (if b then 1 else 0)
  | .int n => some n
  | .float x => x.value?
  | _ => none

/-- Scalars compare by number across `bool`, `int` and `float`; `nan` equals nothing. -/
def scalarEq : Json → Json → Bool
  | .null, .null => true
  | .str s, .str t => s == t
  | .float (.inf a), .float (.inf b) => a == b
  | a, b =>
    match a.num?, b.num? with
    | some x, some y => x == y
    | _, _ => false

mutual
/-- Python's `==`. -/
def pyEq : Json → Json → Bool
  | .arr xs, .arr ys => pyEqList xs ys
  | .obj a, .obj b => a.length == b.length && pyEqMembers a b
  | .arr _, _ => false
  | .obj _, _ => false
  | a, b => scalarEq a b

/-- `==` of two lists. -/
def pyEqList : List Json → List Json → Bool
  | [], [] => true
  | x :: xs, y :: ys => pyEq x y && pyEqList xs ys
  | _, _ => false

/-- Every member of the first object is in the second with an equal value. -/
def pyEqMembers : List (PyStr × Json) → List (PyStr × Json) → Bool
  | [], _ => true
  | (k, v) :: rest, b =>
    (match lookup k b with
      | some w => pyEq v w
      | none => false) && pyEqMembers rest b
end

/-- `bool(value)`. -/
def truthy : Json → Bool
  | .null => false
  | .bool b => b
  | .int n => n != 0
  | .float (.finite _ mag) => mag.mant != 0
  | .float _ => true
  | .str s => !s.isEmpty
  | .arr xs => !xs.isEmpty
  | .obj m => !m.isEmpty

/-- Comparing with a string literal: only that very string is equal to it. -/
theorem pyEq_str_right (v : Json) (s : PyStr) : pyEq v (.str s) = true ↔ v = .str s := by
  cases v with
  | str t => simp [pyEq, scalarEq]
  | float x => cases x <;> simp [pyEq, scalarEq, Json.num?, PyFloat.value?]
  | _ => simp [pyEq, scalarEq, Json.num?]

/-! ## Text of numbers -/

/-- The ASCII digit `d`. -/
def digitCp (d : Nat) : CodePoint := cp (0x30 + d)

/-- `str(n)` of a natural number. -/
def natText (n : Nat) : PyStr :=
  if n = 0 then [digitCp 0] else ((Nat.digits 10 n).reverse.map digitCp)

/-- `str(n)`. -/
def intText (n : Int) : PyStr :=
  if n < 0 then lit "-" ++ natText n.natAbs else natText n.natAbs

/-- `sys.get_int_max_str_digits()`. -/
def maxStrDigits : Nat := 4300

/-- Strip the trailing zeros of a coefficient; the fuel bounds the number of digits. -/
def stripZeros : Nat → Decimal → Decimal
  | 0, d => d
  | fuel + 1, d =>
    if d.coeff ≠ 0 ∧ d.coeff % 10 = 0 then stripZeros fuel ⟨d.coeff / 10, d.exp + 1⟩ else d

/-- The sign and digits of an exponent, at least two of them. -/
def expText (e : Int) : PyStr :=
  (if e < 0 then lit "-" else lit "+")
    ++ (if e.natAbs < 10 then lit "0" else []) ++ natText e.natAbs

/-- `repr` of a nonnegative finite float with these significant digits. -/
def decimalText (d : Decimal) : PyStr :=
  let ds := natText d.coeff
  let point : Int := d.exp + ds.length
  if d.coeff = 0 then lit "0.0"
  else if -4 < point ∧ point ≤ 16 then
    if point ≤ 0 then lit "0." ++ List.replicate (-point).toNat (digitCp 0) ++ ds
    else if (ds.length : Int) ≤ point then
      ds ++ List.replicate (point.toNat - ds.length) (digitCp 0) ++ lit ".0"
    else ds.take point.toNat ++ lit "." ++ ds.drop point.toNat
  else
    ds.take 1 ++ (if ds.length = 1 then [] else lit "." ++ ds.drop 1) ++ lit "e"
      ++ expText (point - 1)

/-- `repr` of a finite float. -/
def floatText (neg : Bool) (mag : Magnitude) : PyStr :=
  (if neg then lit "-" else []) ++ decimalText (stripZeros 20 mag.shortest)

/-! ## Text of strings -/

/-- The lower-case hexadecimal digit `d`. -/
def hexCp (d : Nat) : CodePoint := if d < 10 then digitCp d else cp (0x61 + (d - 10))

/-- How `json.dumps(..., ensure_ascii=False)` writes one character. -/
def escapeChar (c : CodePoint) : PyStr :=
  if c.val = 0x22 then lit "\\\""
  else if c.val = 0x5C then lit "\\\\"
  else if c.val = 0x0A then lit "\\n"
  else if c.val = 0x0D then lit "\\r"
  else if c.val = 0x09 then lit "\\t"
  else if c.val = 0x0C then lit "\\f"
  else if c.val = 0x08 then lit "\\b"
  else if c.val < 0x20 then lit "\\u00" ++ [hexCp (c.val / 16), hexCp (c.val % 16)]
  else [c]

/-- A string between its quotes. -/
def stringText (s : PyStr) : PyStr := lit "\"" ++ s.flatMap escapeChar ++ lit "\""

/-! ## `json.dumps` -/

/-- The order of `sort_keys`: by code point. -/
def strLe : PyStr → PyStr → Bool
  | [], _ => true
  | _ :: _, [] => false
  | a :: s, b :: t => if a = b then strLe s t else a < b

/-- Members sorted by name. -/
def sortMembers {α : Type} (m : List (PyStr × α)) : List (PyStr × α) :=
  m.insertionSort fun a b => strLe a.1 b.1 = true

/-- Texts with commas between them. -/
def joinComma : List PyStr → PyStr
  | [] => []
  | [t] => t
  | t :: rest => t ++ lit "," ++ joinComma rest

/-- One member. -/
def memberText (m : PyStr × PyStr) : PyStr := stringText m.1 ++ lit ":" ++ m.2

mutual
/-- The canonical text; `none` is the `ValueError` of a non-finite float or of
an integer with too many digits. -/
def dumps : Json → Option PyStr
  | .null => some (lit "null")
  | .bool true => some (lit "true")
  | .bool false => some (lit "false")
  | .int n => if maxStrDigits < (natText n.natAbs).length then none else some (intText n)
  | .float (.finite neg mag) => some (floatText neg mag)
  | .float _ => none
  | .str s => some (stringText s)
  | .arr xs => (dumpsList xs).map fun ts => lit "[" ++ joinComma ts ++ lit "]"
  | .obj m => (dumpsMembers m).map fun ts =>
      lit "\x7b" ++ joinComma ((sortMembers ts).map memberText) ++ lit "\x7d"

/-- The texts of the elements of an array. -/
def dumpsList : List Json → Option (List PyStr)
  | [] => some []
  | x :: xs =>
    match dumps x, dumpsList xs with
    | some t, some ts => some (t :: ts)
    | _, _ => none

/-- The names and texts of the members of an object, in insertion order. -/
def dumpsMembers : List (PyStr × Json) → Option (List (PyStr × PyStr))
  | [] => some []
  | (k, v) :: rest =>
    match dumps v, dumpsMembers rest with
    | some t, some ts => some ((k, t) :: ts)
    | _, _ => none
end

mutual
/-- The same value with the members of every object sorted by name. -/
def canon : Json → Json
  | .arr xs => .arr (canonList xs)
  | .obj m => .obj (sortMembers (canonMembers m))
  | v => v

def canonList : List Json → List Json
  | [] => []
  | x :: xs => canon x :: canonList xs

def canonMembers : List (PyStr × Json) → List (PyStr × Json)
  | [] => []
  | (k, v) :: rest => (k, canon v) :: canonMembers rest
end

/-- `json.dumps(...).encode("utf-8")`; `none` is a `ValueError` (a non-finite
float) or a `UnicodeEncodeError` (a lone surrogate), which is a `ValueError` too. -/
def canonicalBytes (v : Json) : Option Bytes := (dumps v).bind utf8Encode

end SddGov.Python
