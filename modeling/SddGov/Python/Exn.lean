import SddGov.Effect.Prog
import SddGov.Python.JsonParse

/-!
# Exceptions

The exception classes the programs tell apart: `OSError` with the few error
numbers they look at, `ValueError` with its message (`UnicodeDecodeError`,
`UnicodeEncodeError` and `JSONDecodeError` are `ValueError`s), and the classes
that an `except (OSError, ValueError)` lets through.

A system call answers `Sys α`; `sys` raises its error.
-/

namespace SddGov.Python

open SddGov.Effect

/-- The error numbers that are looked at. -/
inductive OsError
  | exists
  | missing
  | other
  deriving DecidableEq, Repr

/-- What a system call answers. -/
abbrev Sys (α : Type) := Except OsError α

/-- A raised exception. -/
inductive Exn
  | os (e : OsError)
  | value (message : PyStr)
  | recursion
  | overflow
  | type
  | attribute
  | key
  | subprocess
  deriving DecidableEq

/-- `except (OSError, ValueError)`. -/
def Exn.isOsOrValue : Exn → Bool
  | .os _ => true
  | .value _ => true
  | _ => false

/-- What `json.loads` raises when it is not a `JSONDecodeError`. -/
def Exn.ofJson : JsonError → Exn
  | .decode => .value (lit "JSONDecodeError")
  | .digits => .value (lit "Exceeds the limit (4300 digits) for integer string conversion")
  | .recursion => .recursion

/-- The containers `json.loads` nests before `RecursionError`: the default of
`sys.setrecursionlimit`, with no frame on the stack. The frames that are there take from it,
so a result that depends on the number is stated for every limit. -/
def recursionLimit : Nat := 1000

variable {S : Sig} {α : Type}

/-- Raise the error of a system call. -/
def sys (p : Prog S Exn (Sys α)) : Prog S Exn α :=
  p.handle
    (fun
      | .ok a => .ret a
      | .error e => .raise (.os e))
    .raise

theorem calls_sys {P : S.Op → Prop} {p : Prog S Exn (Sys α)} (h : p.Calls P) :
    (sys p).Calls P := by
  apply h.bind
  intro r
  cases r <;> trivial

/-- A `ValueError`. -/
def valueError (message : String) : Exn := .value (lit message)

/-- `if not c: raise ValueError(message)`. -/
def require (c : Bool) (message : String) : Except Exn Unit :=
  if c then .ok () else .error (valueError message)

@[simp] theorem require_ok {c : Bool} {message : String} {u : Unit} :
    require c message = .ok u ↔ c = true := by
  unfold require
  split <;> simp [*]

theorem except_bind_ok {ε α β : Type} {x : Except ε α} {f : α → Except ε β} {b : β} :
    (x >>= f) = .ok b ↔ ∃ a, x = .ok a ∧ f a = .ok b := by
  cases x with
  | error e => simp [Bind.bind, Except.bind]
  | ok a => simp [Bind.bind, Except.bind]

theorem exists_of_isOk {ε α : Type} {x : Except ε α} (h : x.isOk = true) : ∃ v, x = .ok v := by
  cases x with
  | ok v => exact ⟨v, rfl⟩
  | error e => exact absurd h (by simp [Except.isOk, Except.toBool])

/-! ## Values of unknown type -/

/-- `value in names` for a set of strings; a list or an object has no hash. -/
def memberOfSet (value : Json) (names : List PyStr) : Except Exn Bool :=
  match value with
  | .str s => .ok (names.contains s)
  | .arr _ => .error .type
  | .obj _ => .error .type
  | _ => .ok false

/-- `value is True`. -/
def isTrue : Json → Bool
  | .bool b => b
  | _ => false

/-- `isinstance(value, dict)`. -/
def isObject : Json → Bool
  | .obj _ => true
  | _ => false

/-- `isinstance(value, list)`. -/
def isArray : Json → Bool
  | .arr _ => true
  | _ => false

/-- A string that is not blank. -/
def text? : Json → Option PyStr
  | .str s => if isBlank s then none else some s
  | _ => none

theorem eq_of_text? {v : Json} {s : PyStr} (h : text? v = some s) : v = .str s := by
  unfold text? at h
  split at h
  · split at h
    · exact absurd h (by simp)
    · rw [Option.some.inj h]
  · exact absurd h (by simp)

/-- Python's `==` with a text is identity. -/
theorem eq_of_pyEq_text {v w : Json} (hw : (text? w).isSome = true) (h : pyEq v w = true) :
    v = w := by
  cases w with
  | str s => exact (pyEq_str_right _ _).mp h
  | _ => exact absurd hw (by simp [text?])

/-- `value.strip()`. -/
def stripOf : Json → Except Exn PyStr
  | .str s => .ok (strip s)
  | _ => .error .attribute

end SddGov.Python
