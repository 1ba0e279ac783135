import SddGov.Python.Exn

/-!
# Digests and signatures

SHA-256 and Ed25519 stay parameters: a program takes a `Crypto` and only ever
compares digests and asks whether a signature verifies. The base64 text that
carries keys and signatures is decoded here (`validate=True`).
-/

namespace SddGov.Python

/-- `SHA256_PATTERN.fullmatch`. -/
def isSha256 (s : PyStr) : Bool :=
  s.length == 64 && s.all fun c => (0x30 ≤ c.val && c.val ≤ 0x39) || (0x61 ≤ c.val && c.val ≤ 0x66)

/-- The primitives the programs use. -/
structure Crypto where
  /-- `hashlib.sha256(data).hexdigest()` -/
  sha256 : Bytes → PyStr
  /-- `Ed25519PublicKey.from_public_bytes(key).verify(signature, message)` returns -/
  verifies : (publicKey signature message : Bytes) → Bool

/-- A digest is 64 lower-case hexadecimal digits. -/
def Crypto.Hex (C : Crypto) : Prop := ∀ b, isSha256 (C.sha256 b) = true

/-- Two byte strings, where they are there, are no collision. -/
def NoCollision (C : Crypto) (a b : Option Bytes) : Prop :=
  ∀ x y, a = some x → b = some y → C.sha256 x = C.sha256 y → x = y

/-- What has one canonical form does not collide, whatever its digest. -/
theorem noCollision_of_eq {C : Crypto} {a b : Option Bytes} (h : a = b) : NoCollision C a b :=
  fun _ _ hx hy _ => Option.some.inj (hx.symm.trans (h.trans hy))

/-- The value of a base64 character. -/
def b64Val (c : CodePoint) : Option Nat :=
  if 0x41 ≤ c.val ∧ c.val ≤ 0x5A then some (c.val - 0x41)
  else if 0x61 ≤ c.val ∧ c.val ≤ 0x7A then some (c.val - 0x61 + 26)
  else if 0x30 ≤ c.val ∧ c.val ≤ 0x39 then some (c.val - 0x30 + 52)
  else if c.val = 0x2B then some 62
  else if c.val = 0x2F then some 63
  else none

/-- `=`. -/
def padding : CodePoint := cp 0x3D

/-- `base64.b64decode(text, validate=True)`; `none` is its `ValueError`. -/
def b64decode : PyStr → Option Bytes
  | [] => some []
  | a :: b :: c :: d :: rest =>
    match b64Val a, b64Val b with
    | some x, some y =>
      if c = padding then
        if d = padding ∧ rest = [] then some [byte (x * 4 + y / 16)] else none
      else
        match b64Val c with
        | none => none
        | some z =>
          if d = padding then
            if rest = [] then some [byte (x * 4 + y / 16), byte (y % 16 * 16 + z / 4)] else none
          else
            match b64Val d with
            | none => none
            | some w =>
              (b64decode rest).map
                ([byte (x * 4 + y / 16), byte (y % 16 * 16 + z / 4), byte (z % 4 * 64 + w)] ++ ·)
    | _, _ => none
  | _ => none

/-- The digest of the canonical form; `none` is the error of a value without one. -/
def Crypto.digest (C : Crypto) (v : Json) : Option PyStr := (canonicalBytes v).map C.sha256

/-! ## Digests and signatures of given inputs -/

/-- A number below `2 ^ 256` in 64 hexadecimal digits. -/
def hexDigest (n : Nat) : PyStr := (List.range 64).reverse.map fun i => hexCp (n / 16 ^ i % 16)

theorem isSha256_hexDigest (n : Nat) : isSha256 (hexDigest n) = true := by
  have hdigit : ∀ d < 16, (0x30 ≤ (hexCp d).val ∧ (hexCp d).val ≤ 0x39)
      ∨ 0x61 ≤ (hexCp d).val ∧ (hexCp d).val ≤ 0x66 := by decide
  unfold isSha256 hexDigest
  simp only [List.length_map, List.length_reverse, List.length_range, BEq.rfl, Bool.true_and,
    List.all_map, List.all_eq_true, Function.comp_apply, Bool.or_eq_true, Bool.and_eq_true,
    decide_eq_true_eq]
  intro i _
  exact hdigit _ (Nat.mod_lt _ (by decide))

/-- The primitives read off tables that hold their real values on some inputs: a digest as its
number, a signature with its key and its message. Nothing else verifies. -/
def Crypto.ofTables (digests : List (Option Bytes × Nat))
    (signatures : List (Bytes × Bytes × Option Bytes)) : Crypto where
  sha256 data := hexDigest (((digests.find? fun row => row.1 == some data).map Prod.snd).getD 0)
  verifies publicKey signature message :=
    signatures.any fun row => row == (publicKey, signature, some message)

theorem Crypto.ofTables_hex (digests : List (Option Bytes × Nat))
    (signatures : List (Bytes × Bytes × Option Bytes)) : (Crypto.ofTables digests signatures).Hex :=
  fun _ => isSha256_hexDigest _

end SddGov.Python
