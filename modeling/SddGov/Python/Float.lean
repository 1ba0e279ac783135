import Mathlib.Data.Int.Log
import Mathlib.Data.Rat.Floor
import Mathlib.Tactic
import SddGov.Python.Text

/-!
# Python floats: IEEE doubles, `float(text)` and `repr`

A `float` reaches the programs through `json.loads` and leaves them through
`json.dumps`. What has to be right is the pair of conversions: reading rounds
a decimal to the nearest double (ties to even), `repr` writes the shortest
decimal that reads back as the same double. `Magnitude` is the canonical
mantissa-exponent pair, carrying its own range proof, so two finite floats
are the same exactly when their pairs are, up to the sign.

`Magnitude.shortest` is a search, and each candidate is accepted only when it
reads back; what is left when all fail is the exact binary expansion, which
always does (`roundRat_value`). Hence `float(repr(x)) == x`
(`Magnitude.read_shortest`).
-/

namespace SddGov.Python

/-- The mantissa bound of a double. -/
def mantMax : Nat := 2 ^ 53

/-- The smallest mantissa of a normal double. -/
def mantMin : Nat := 2 ^ 52

/-- The smallest exponent of a double whose mantissa is an integer. -/
def expMin : Int := -1074

/-- The largest one. -/
def expMax : Int := 971

/-- The magnitude of a finite double, `mant * 2 ^ exp`, in its canonical form. -/
structure Magnitude where
  mant : Nat
  exp : Int
  mant_lt : mant < mantMax
  exp_ge : expMin ≤ exp
  exp_le : exp ≤ expMax
  normal : mantMin ≤ mant ∨ exp = expMin
  deriving DecidableEq

/-- A Python `float`. -/
inductive PyFloat
  | nan
  | inf (neg : Bool)
  | finite (neg : Bool) (mag : Magnitude)
  deriving DecidableEq

/-- Zero: no mantissa and the smallest exponent. -/
def Magnitude.zero : Magnitude :=
  ⟨0, expMin, by decide, by decide, by decide, Or.inr rfl⟩

/-- The number a magnitude stands for. -/
def Magnitude.value (x : Magnitude) : ℚ := x.mant * 2 ^ x.exp

/-- The exact value of a finite float; `nan` and the infinities have none. -/
def PyFloat.value? : PyFloat → Option ℚ
  | .finite neg mag => some (if neg then -mag.value else mag.value)
  | _ => none

/-! ## Reading a decimal -/

/-- The nearest natural number, ties to even. -/
def roundHalfEven (v : ℚ) : Nat :=
  let q := ⌊v⌋₊
  let r := v - q
  if r < 1 / 2 then q
  else if 1 / 2 < r then q + 1
  else if q % 2 = 0 then q else q + 1

/-- The magnitude with this mantissa and exponent, when they are in range. -/
def Magnitude.mk? (m : Nat) (e : Int) : Option Magnitude :=
  if h : m < mantMax ∧ expMin ≤ e ∧ e ≤ expMax ∧ (mantMin ≤ m ∨ e = expMin) then
    some ⟨m, e, h.1, h.2.1, h.2.2.1, h.2.2.2⟩
  else none

/-- The double nearest to a nonnegative number; `none` is an overflow to infinity. -/
def roundRat (v : ℚ) : Option Magnitude :=
  if v = 0 then some Magnitude.zero
  else
    let e := max expMin (Int.log 2 v - 52)
    let m := roundHalfEven (v / 2 ^ e)
    -- a mantissa rounded up to `2 ^ 53` moves to the next binade
    if m = mantMax then Magnitude.mk? mantMin (e + 1) else Magnitude.mk? m e

/-- A decimal `coeff * 10 ^ exp`. -/
structure Decimal where
  coeff : Nat
  exp : Int
  deriving DecidableEq, Repr

/-- The number a decimal stands for. -/
def Decimal.value (d : Decimal) : ℚ := d.coeff * 10 ^ d.exp

/-- `float(text)` for the unsigned decimal that `text` spells. -/
def Decimal.read (d : Decimal) : Option Magnitude := roundRat d.value

/-! ## `repr` -/

/-- The exact decimal expansion of a double. -/
def Magnitude.exact (x : Magnitude) : Decimal :=
  if 0 ≤ x.exp then ⟨x.mant * 2 ^ x.exp.toNat, 0⟩
  else ⟨x.mant * 5 ^ (-x.exp).toNat, x.exp⟩

/-- The candidates with `n` significant digits: the two neighbours of `x`, the
nearer one first. -/
def Magnitude.candidates (x : Magnitude) (n : Nat) : List Decimal :=
  let e : Int := Int.log 10 x.value + 1 - n
  let q := ⌊x.value / 10 ^ e⌋₊
  if x.value / 10 ^ e - q ≤ 1 / 2 then [⟨q, e⟩, ⟨q + 1, e⟩] else [⟨q + 1, e⟩, ⟨q, e⟩]

/-- The shortest decimal that reads back as `x`. -/
def Magnitude.shortest (x : Magnitude) : Decimal :=
  if x.mant = 0 then ⟨0, 0⟩
  else
    (((List.range 17).flatMap fun n => x.candidates (n + 1)).find?
      fun d => d.read == some x).getD x.exact

/-! ## `float(repr(x)) == x` -/

theorem roundHalfEven_natCast (m : Nat) : roundHalfEven (m : ℚ) = m := by
  unfold roundHalfEven
  simp

theorem roundHalfEven_le_succ {v : ℚ} (h : 0 ≤ v) : (roundHalfEven v : ℚ) ≤ v + 1 := by
  have hfloor := Nat.floor_le h
  unfold roundHalfEven
  dsimp only
  split_ifs <;> push_cast <;> linarith

/-- Rounding does not pass a half above a bound. -/
theorem roundHalfEven_le {v : ℚ} {n : Nat} (h : v < n + 1 / 2) (h0 : 0 ≤ v) :
    roundHalfEven v ≤ n := by
  have hfloor : ⌊v⌋₊ < n + 1 := (Nat.floor_lt h0).mpr (by push_cast; linarith)
  unfold roundHalfEven
  dsimp only
  by_cases hlt : ⌊v⌋₊ < n
  · split_ifs <;> omega
  · have heq : ⌊v⌋₊ = n := by omega
    rw [heq, if_pos (by linarith)]

theorem Magnitude.mk?_value {m : Nat} {e : Int} {x : Magnitude} (h : Magnitude.mk? m e = some x) :
    x.value = m * 2 ^ e := by
  unfold Magnitude.mk? at h
  split at h
  · rw [← Option.some.inj h]
    rfl
  · exact absurd h (by simp)

/-- The nearest double is within one unit in the last place. -/
theorem roundRat_le {v : ℚ} {x : Magnitude} (h : roundRat v = some x) (hv : 0 ≤ v) :
    x.value ≤ v + 2 ^ max expMin (Int.log 2 v - 52) := by
  unfold roundRat at h
  split at h
  · rw [← Option.some.inj h]
    simp only [Magnitude.value, Magnitude.zero, CharP.cast_eq_zero, zero_mul]
    positivity
  · generalize max expMin (Int.log 2 v - 52) = e at h ⊢
    have hpos : (0 : ℚ) < 2 ^ e := by positivity
    have hround := roundHalfEven_le_succ (div_nonneg hv hpos.le)
    have hscaled : (roundHalfEven (v / 2 ^ e) : ℚ) * 2 ^ e ≤ v + 2 ^ e := by
      calc (roundHalfEven (v / 2 ^ e) : ℚ) * 2 ^ e ≤ (v / 2 ^ e + 1) * 2 ^ e := by gcongr
        _ = v + 2 ^ e := by field_simp
    dsimp only at h
    split at h
    · next hmax =>
      -- the mantissa was rounded up to the next binade
      rw [hmax] at hscaled
      rw [Magnitude.mk?_value h, zpow_add₀ (by norm_num)]
      refine le_trans (le_of_eq ?_) hscaled
      unfold mantMin mantMax
      push_cast
      ring
    · rw [Magnitude.mk?_value h]
      exact hscaled

theorem Magnitude.value_nonneg (x : Magnitude) : 0 ≤ x.value := by
  unfold Magnitude.value
  positivity

theorem Magnitude.value_ne_zero {x : Magnitude} (h : x.mant ≠ 0) : x.value ≠ 0 := by
  unfold Magnitude.value
  have : (x.mant : ℚ) ≠ 0 := by exact_mod_cast h
  positivity

/-- The binade of a normal double is its own exponent. -/
theorem Magnitude.log_value_normal {x : Magnitude} (h : mantMin ≤ x.mant) :
    Int.log 2 x.value = x.exp + 52 := by
  have hpos : 0 < x.value := by
    have : 0 < x.mant := Nat.lt_of_lt_of_le (by decide) h
    unfold Magnitude.value
    positivity
  have hlo : (2 : ℚ) ^ (x.exp + 52) ≤ x.value := by
    rw [Magnitude.value, zpow_add₀ (by norm_num), mul_comm]
    have : ((2 : ℚ) ^ (52 : ℤ)) ≤ x.mant := by
      have h' : ((mantMin : Nat) : ℚ) ≤ x.mant := Nat.cast_le.mpr h
      rwa [mantMin, Nat.cast_pow] at h'
    gcongr
  have hhi : x.value < (2 : ℚ) ^ (x.exp + 52 + 1) := by
    rw [Magnitude.value, show x.exp + 52 + 1 = x.exp + 53 by ring, zpow_add₀ (by norm_num),
      mul_comm]
    have : (x.mant : ℚ) < (2 : ℚ) ^ (53 : ℤ) := by
      have h' : (x.mant : ℚ) < ((mantMax : Nat) : ℚ) := Nat.cast_lt.mpr x.mant_lt
      rwa [mantMax, Nat.cast_pow] at h'
    gcongr
  have h1 : x.exp + 52 ≤ Int.log 2 x.value :=
    (Int.zpow_le_iff_le_log (by norm_num) hpos).mp (by exact_mod_cast hlo)
  have h2 : Int.log 2 x.value < x.exp + 52 + 1 :=
    (Int.lt_zpow_iff_log_lt (by norm_num) hpos).mp (by exact_mod_cast hhi)
  omega

/-- The binade of a subnormal double lies at or below the smallest exponent. -/
theorem Magnitude.log_value_le {x : Magnitude} (h0 : x.mant ≠ 0) (h : x.mant < mantMin) :
    Int.log 2 x.value - 52 ≤ expMin := by
  have hexp : x.exp = expMin := by
    rcases x.normal with hn | he
    · omega
    · exact he
  have hpos : 0 < x.value := lt_of_le_of_ne (by unfold Magnitude.value; positivity)
    (Ne.symm (Magnitude.value_ne_zero h0))
  have hhi : x.value < (2 : ℚ) ^ (x.exp + 52) := by
    rw [Magnitude.value, zpow_add₀ (by norm_num), mul_comm]
    have : (x.mant : ℚ) < (2 : ℚ) ^ (52 : ℤ) := by
      have h' : (x.mant : ℚ) < ((mantMin : Nat) : ℚ) := Nat.cast_lt.mpr h
      rwa [mantMin, Nat.cast_pow] at h'
    gcongr
  have h2 : Int.log 2 x.value < x.exp + 52 :=
    (Int.lt_zpow_iff_log_lt (by norm_num) hpos).mp (by exact_mod_cast hhi)
  omega

/-- Rounding leaves a double alone. -/
theorem roundRat_value (x : Magnitude) : roundRat x.value = some x := by
  by_cases h0 : x.mant = 0
  · have hz : x = Magnitude.zero := by
      have hexp : x.exp = expMin := by
        rcases x.normal with hn | he
        · rw [h0] at hn
          exact absurd hn (by decide)
        · exact he
      cases x
      simp only at h0 hexp
      subst h0; subst hexp
      rfl
    subst hz
    have hv : Magnitude.zero.value = 0 := by simp [Magnitude.value, Magnitude.zero]
    rw [roundRat, if_pos hv]
  have hne := Magnitude.value_ne_zero h0
  have he : max expMin (Int.log 2 x.value - 52) = x.exp := by
    by_cases hn : mantMin ≤ x.mant
    · rw [Magnitude.log_value_normal hn]
      have := x.exp_ge
      omega
    · have h1 := Magnitude.log_value_le h0 (by omega)
      have hexp : x.exp = expMin := by
        rcases x.normal with h | h
        · exact absurd h hn
        · exact h
      omega
  have hm : roundHalfEven (x.value / 2 ^ x.exp) = x.mant := by
    have : x.value / 2 ^ x.exp = (x.mant : ℚ) := by
      rw [Magnitude.value]
      field_simp
    rw [this, roundHalfEven_natCast]
  unfold roundRat
  rw [if_neg hne]
  simp only [he, hm]
  have hlt := x.mant_lt
  rw [if_neg (by omega), Magnitude.mk?, dif_pos ⟨x.mant_lt, x.exp_ge, x.exp_le, x.normal⟩]

/-- A magnitude as a fraction has its value. -/
theorem Magnitude.exact_value (x : Magnitude) : x.exact.value = x.value := by
  unfold Magnitude.exact Decimal.value Magnitude.value
  split
  · next h =>
    have : (2 : ℚ) ^ x.exp = 2 ^ x.exp.toNat := by
      conv_lhs => rw [← Int.toNat_of_nonneg h]
      exact zpow_natCast ..
    rw [this]
    push_cast
    ring
  · next h =>
    have hk : x.exp = -((-x.exp).toNat : Int) := by omega
    generalize (-x.exp).toNat = k at hk ⊢
    rw [hk]
    simp only [zpow_neg, zpow_natCast]
    push_cast
    rw [show (10 : ℚ) ^ k = 5 ^ k * 2 ^ k by rw [← mul_pow]; norm_num]
    field_simp

/-- **`repr` reads back**: the shortest decimal of a double is read as that double. -/
theorem Magnitude.read_shortest (x : Magnitude) : x.shortest.read = some x := by
  unfold Magnitude.shortest
  split
  · next h0 =>
    have hv : x.value = 0 := by simp [Magnitude.value, h0]
    have h := roundRat_value x
    rw [hv] at h
    simpa [Decimal.read, Decimal.value] using h
  · cases hf : ((List.range 17).flatMap fun n => x.candidates (n + 1)).find?
        fun d => d.read == some x with
    | some d => simpa using List.find?_some hf
    | none =>
      simp only [Option.getD_none, Decimal.read]
      rw [Magnitude.exact_value, roundRat_value]

end SddGov.Python
