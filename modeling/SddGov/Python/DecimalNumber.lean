import SddGov.Python.JsonRoundTrip

/-!
# `decimal.Decimal`

Reading a text exactly, the value of what was read, and `format(value, "f")`.

The fixed-point text has no exponent: every place after the point is written
out. A short text such as `1E-9` therefore prints as long as its exponent is
deep, and `length_fixedText` says exactly how long for the values up to 1/4.
-/

namespace SddGov.Python

/-- `(-1)^negative * coefficient * 10^exponent`; the sign of a zero is kept. -/
structure FiniteDecimal where
  negative : Bool
  coefficient : Nat
  exponent : Int
  deriving DecidableEq, Repr

/-- A `Decimal`; the payload of a NaN is left out. -/
inductive DecimalNumber
  | finite (d : FiniteDecimal)
  | infinite (negative : Bool)
  | nan
  deriving DecidableEq, Repr

/-! ## Reading -/

/-- The zeros among the decimal digits of Unicode; the other nine follow each of them. -/
def decimalZeros : List Nat :=
  [0x30, 0x660, 0x6F0, 0x7C0, 0x966, 0x9E6, 0xA66, 0xAE6, 0xB66, 0xBE6, 0xC66, 0xCE6, 0xD66, 0xDE6,
    0xE50, 0xED0,
    0xF20, 0x1040, 0x1090, 0x17E0, 0x1810, 0x1946, 0x19D0, 0x1A80, 0x1A90, 0x1B50, 0x1BB0, 0x1C40,
      0x1C50, 0xA620,
    0xA8D0, 0xA900, 0xA9D0, 0xA9F0, 0xAA50, 0xABF0, 0xFF10, 0x104A0, 0x10D30, 0x11066, 0x110F0,
      0x11136, 0x111D0,
    0x112F0, 0x11450, 0x114D0, 0x11650, 0x116C0, 0x11730, 0x118E0, 0x11950, 0x11C50, 0x11D50,
      0x11DA0, 0x16A60,
    0x16AC0, 0x16B50, 0x1D7CE, 0x1D7D8, 0x1D7E2, 0x1D7EC, 0x1D7F6, 0x1E140, 0x1E2F0,
      0x1E950, 0x1FBF0]

/-- The ASCII form of one character; a character that is neither ASCII nor a space nor a decimal
digit has none. -/
def asciiChar? (c : CodePoint) : Option CodePoint :=
  if c.val < 0x80 then some c
  else if isSpace c then some (cp 0x20)
  else (decimalZeros.find? fun z => z ≤ c.val && c.val < z + 10).map fun z => digitCp (c.val - z)

/-- `numeric_as_ascii`: the text between its spaces, without underscores. -/
def numericAsAscii (text : PyStr) : Option PyStr :=
  ((strip text).filter fun c => c.val != 0x5F).mapM asciiChar?

/-- A sign and what follows it. -/
def readSign : PyStr → Bool × PyStr
  | [] => (false, [])
  | c :: rest =>
    if c.val = 0x2B then (false, rest)
    else if c.val = 0x2D then (true, rest)
    else (false, c :: rest)

/-- The digits after the point, and what follows them. -/
def readFraction : PyStr → List Nat × PyStr
  | [] => ([], [])
  | c :: rest => if c.val = 0x2E then spanDigits rest else ([], c :: rest)

/-- The exponent, where it is all that is left. -/
def readExponent (s : PyStr) : Option Int :=
  if s.isEmpty then some 0
  else
    match parseExp? s with
    | some (e, []) => some e
    | _ => none

/-- What the largest context holds without rounding or clamping. -/
def FiniteDecimal.Exact (d : FiniteDecimal) : Prop :=
  -1999999999999999997 ≤ d.exponent ∧ d.exponent + (natText d.coefficient).length
    ≤ 1000000000000000000

instance (d : FiniteDecimal) : Decidable d.Exact := inferInstanceAs (Decidable (_ ∧ _))

def readNumber (negative : Bool) (s : PyStr) : Option DecimalNumber :=
  let (whole, s) := spanDigits s
  let (fraction, s) := readFraction s
  if (whole ++ fraction).isEmpty then none
  else
    match readExponent s with
    | none => none
    | some e =>
      -- every digit after the point takes one from the exponent
      let d : FiniteDecimal := ⟨negative, ofDigits (whole ++ fraction), e - fraction.length⟩
      if d.Exact then some (.finite d) else none

/-- ASCII in lower case. -/
def lowerChar (c : CodePoint) : CodePoint := if 0x41 ≤ c.val
    ∧ c.val ≤ 0x5A then cp (c.val + 0x20) else c

/-- `nan` or `snan` with the digits of a payload. -/
def isNan (s : PyStr) : Bool :=
  ((dropPrefix? (lit "snan") s).or (dropPrefix? (lit "nan") s)).any fun payload =>
    payload.all fun c => (digitVal? c).isSome

/-- `Decimal(text)`; none is its `InvalidOperation`. -/
def DecimalNumber.ofText (text : PyStr) : Option DecimalNumber :=
  match numericAsAscii text with
  | none => none
  | some s =>
    let (negative, s) := readSign s
    let word := s.map lowerChar
    if word = lit "inf" ∨ word = lit "infinity" then some (.infinite negative)
    else if isNan word then some .nan
    else readNumber negative s

example : DecimalNumber.ofText (lit " -1_2.50e3\n") = some (.finite ⟨true, 1250, 1⟩) := by decide

/-! ## Value and text -/

/-- The number itself. -/
def FiniteDecimal.value (d : FiniteDecimal) : ℚ :=
  (if d.negative then -1 else 1) * d.coefficient * (10 : ℚ) ^ d.exponent

/-- The places after the point. -/
def FiniteDecimal.places (d : FiniteDecimal) : Nat := (-d.exponent).toNat

/-- The digits, with zeros in front so that one of them stands before the point. -/
def FiniteDecimal.padded (d : FiniteDecimal) : PyStr :=
  List.replicate (d.places + 1 - (natText d.coefficient).length) (digitCp 0)
    ++ natText d.coefficient

/-- `format(value, "f")` without the sign. -/
def FiniteDecimal.unsignedText (d : FiniteDecimal) : PyStr :=
  if 0 ≤ d.exponent then
    if d.coefficient = 0 then [digitCp 0]
    else natText d.coefficient ++ List.replicate d.exponent.toNat (digitCp 0)
  else
    d.padded.take (d.padded.length - d.places) ++ lit "."
      ++ d.padded.drop (d.padded.length - d.places)

/-- `format(value, "f")` -/
def FiniteDecimal.fixedText (d : FiniteDecimal) : PyStr :=
  (if d.negative then lit "-" else []) ++ d.unsignedText

example : FiniteDecimal.fixedText ⟨true, 12, -4⟩ = lit "-0.0012" := by decide

/-! ## How long the text is -/

theorem length_natText_le {n k : Nat} (h : n < 10 ^ k) (hk : 0 < k) : (natText n).length ≤ k := by
  unfold natText
  split
  · exact hk
  · rw [List.length_map, List.length_reverse]
    exact (Nat.digits_length_le_iff (by norm_num) n).mpr h

/-- A value of 1/4 or less has no digit before the point but a zero. -/
theorem FiniteDecimal.coefficient_lt {d : FiniteDecimal} (h0 : 0 ≤ d.value) (h1 : d.value ≤ 1 / 4) :
    d.coefficient < 10 ^ d.places := by
  have habs : |d.value| = d.coefficient * (10 : ℚ) ^ d.exponent := by
    unfold FiniteDecimal.value
    rw [abs_mul, abs_mul, abs_of_pos (zpow_pos (by norm_num : (0 : ℚ) < 10) d.exponent),
      Nat.abs_cast]
    cases d.negative <;> simp
  rw [abs_of_nonneg h0] at habs
  have hpow : (1 : ℚ) ≤ 10 ^ d.places * (10 : ℚ) ^ d.exponent := by
    rw [← zpow_natCast, ← zpow_add₀ (by norm_num)]
    apply one_le_zpow₀ (by norm_num)
    unfold FiniteDecimal.places
    omega
  have hpos : (0 : ℚ) < (10 : ℚ) ^ d.exponent := zpow_pos (by norm_num) _
  -- a coefficient of `10 ^ places` would already be a value of one
  by_contra hle
  have hle' : ((10 : ℚ) ^ d.places) ≤ d.coefficient := by exact_mod_cast Nat.le_of_not_lt hle
  have := mul_le_mul_of_nonneg_right hle' hpos.le
  linarith

/-- The characters of a cost up to 1/4 in fixed point. -/
def FiniteDecimal.fixedLength (d : FiniteDecimal) : Nat :=
  (if d.negative then 1 else 0) + if 0 ≤ d.exponent then 1 else 2 + d.places

/-- The length of a coefficient that fits in its places. -/
theorem FiniteDecimal.length_unsignedText {d : FiniteDecimal} (h : d.coefficient < 10 ^ d.places) :
    d.unsignedText.length = if 0 ≤ d.exponent then 1 else 2 + d.places := by
  unfold FiniteDecimal.unsignedText
  split
  · next he =>
    have hplaces : d.places = 0 := by unfold FiniteDecimal.places; omega
    rw [hplaces, pow_zero, Nat.lt_one_iff] at h
    rw [if_pos h]
    rfl
  · next he =>
    -- padded, the text is one zero and the places
    have hplaces : 0 < d.places := by unfold FiniteDecimal.places; omega
    have hdigits := length_natText_le h hplaces
    have hpadded : d.padded.length = d.places + 1 := by
      unfold FiniteDecimal.padded
      rw [List.length_append, List.length_replicate]
      omega
    rw [List.length_append, List.length_append, List.length_take, List.length_drop, hpadded]
    have hdot : (lit ".").length = 1 := rfl
    omega

/-- A value from 0 to 1/4 prints one character a place, the zero, the point and the sign. -/
theorem FiniteDecimal.length_fixedText {d : FiniteDecimal} (h0 : 0 ≤ d.value)
    (h1 : d.value ≤ 1 / 4) :
    d.fixedText.length = d.fixedLength := by
  unfold FiniteDecimal.fixedText FiniteDecimal.fixedLength
  rw [List.length_append, length_unsignedText (coefficient_lt h0 h1)]
  congr 1
  split <;> rfl

/-! ## Which characters it has -/

/-- A character that JSON and UTF-8 write as itself, in one byte. -/
def isPlain (c : CodePoint) : Bool := 0x20 ≤ c.val && c.val < 0x7F && c.val != 0x22 && c.val != 0x5C

theorem isPlain_cp {n : Nat} (h : 0x20 ≤ n ∧ n < 0x7F ∧ n ≠ 0x22 ∧ n ≠ 0x5C) :
    isPlain (cp n) = true := by
  have hmod : n % 0x110000 = n := Nat.mod_eq_of_lt (by omega)
  unfold isPlain
  rw [cp_val, hmod]
  simp only [Bool.and_eq_true, decide_eq_true_eq, bne_iff_ne]
  omega

theorem isPlain_digitCp {n : Nat} (h : n < 10) : isPlain (digitCp n) = true := isPlain_cp (by omega)

theorem isPlain_natText (n : Nat) : ∀ c ∈ natText n, isPlain c = true := by
  intro c hc
  rw [natText_eq] at hc
  obtain ⟨x, hx, rfl⟩ := List.mem_map.mp hc
  exact isPlain_digitCp (decDigits_lt hx)

theorem isPlain_zeros (n : Nat) : ∀ c ∈ List.replicate n (digitCp 0), isPlain c = true := by
  intro c hc
  rw [List.eq_of_mem_replicate hc]
  exact isPlain_digitCp (by norm_num)

theorem FiniteDecimal.isPlain_padded (d : FiniteDecimal) : ∀ c ∈ d.padded, isPlain c = true := by
  intro c hc
  rcases List.mem_append.mp hc with hc | hc
  · exact isPlain_zeros _ c hc
  · exact isPlain_natText _ c hc

/-- A decimal is written in plain characters. -/
theorem FiniteDecimal.isPlain_fixedText (d : FiniteDecimal) :
    ∀ c ∈ d.fixedText, isPlain c = true := by
  intro c hc
  rcases List.mem_append.mp hc with hc | hc
  · split at hc
    · rw [List.mem_singleton.mp hc]
      rfl
    · exact absurd hc (by simp)
  unfold FiniteDecimal.unsignedText at hc
  split at hc
  · split at hc
    · rw [List.mem_singleton.mp hc]
      rfl
    · rcases List.mem_append.mp hc with hc | hc
      · exact isPlain_natText _ c hc
      · exact isPlain_zeros _ c hc
  · rcases List.mem_append.mp hc with hc | hc
    · rcases List.mem_append.mp hc with hc | hc
      · exact d.isPlain_padded c (List.mem_of_mem_take hc)
      · rw [List.mem_singleton.mp hc]
        rfl
    · exact d.isPlain_padded c (List.mem_of_mem_drop hc)

end SddGov.Python
