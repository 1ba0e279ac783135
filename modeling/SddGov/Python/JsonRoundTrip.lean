import SddGov.Python.JsonParse

/-!
# The canonical text reads back

`parse_dumps`: parsing the canonical text of a value gives that value with its
members sorted. The statement that goes through the induction is about a text
standing in front of a rest (`parseValue_dumps`): the rest must not continue a
number, which is what `Stops` says and what the comma and the closing brackets
of the canonical form provide.

What the programs rely on is the consequence `canonicalBytes_inj`: two values
with the same canonical bytes are the same JSON value, types included.
-/

namespace SddGov.Python

/-! ## Digits -/

theorem digitVal?_digitCp {d : Nat} (h : d < 10) : digitVal? (digitCp d) = some d := by
  have hv : (digitCp d).val = 0x30 + d := by simp [digitCp]; omega
  unfold digitVal?
  rw [hv, if_pos (by omega)]
  simp

/-- The text does not start with a digit. -/
def NoDigit : PyStr → Prop
  | [] => True
  | c :: _ => digitVal? c = none

/-- The digits in front of what is no digit. -/
theorem spanDigits_map (ds : List Nat) (rest : PyStr) (hds : ∀ d ∈ ds, d < 10)
    (hrest : NoDigit rest) : spanDigits (ds.map digitCp ++ rest) = (ds, rest) := by
  induction ds with
  | nil =>
    cases rest with
    | nil => rfl
    | cons c rest =>
      have h : digitVal? c = none := hrest
      simp [spanDigits, h]
  | cons d ds ih =>
    have hd := hds d (List.mem_cons_self ..)
    have ih' := ih fun x hx => hds x (List.mem_cons_of_mem _ hx)
    simp [spanDigits, digitVal?_digitCp hd, ih']

/-- The value of digits in two parts. -/
theorem ofDigits_append (xs ys : List Nat) :
    ofDigits (xs ++ ys) = ofDigits xs * 10 ^ ys.length + ofDigits ys := by
  have key : ∀ (l : List Nat) (n : Nat),
      l.foldl (fun n d => n * 10 + d) n = n * 10 ^ l.length + ofDigits l := by
    intro l
    induction l with
    | nil => intro n; simp [ofDigits]
    | cons d l ih =>
      intro n
      simp only [List.foldl_cons, List.length_cons, ofDigits]
      rw [ih, ih (0 * 10 + d)]
      ring
  unfold ofDigits
  rw [List.foldl_append, key]
  rfl

theorem ofDigits_replicate_zero (k : Nat) : ofDigits (List.replicate k 0) = 0 := by
  induction k with
  | zero => rfl
  | succ k ih => rw [List.replicate_succ', ofDigits_append, ih]; simp [ofDigits]

/-- The decimal digits of `n`, most significant first. -/
def decDigits (n : Nat) : List Nat := if n = 0 then [0] else (Nat.digits 10 n).reverse

theorem natText_eq (n : Nat) : natText n = (decDigits n).map digitCp := by
  unfold natText decDigits
  split <;> rfl

theorem decDigits_lt {n d : Nat} (h : d ∈ decDigits n) : d < 10 := by
  unfold decDigits at h
  split at h
  · simp at h; omega
  · exact Nat.digits_lt_base (by norm_num) (List.mem_reverse.mp h)

theorem decDigits_ne_nil (n : Nat) : decDigits n ≠ [] := by
  unfold decDigits
  split
  · simp
  · next h => simpa using Nat.digits_ne_nil_iff_ne_zero.mpr h

/-- A number is the value of its digits. -/
theorem ofDigits_decDigits (n : Nat) : ofDigits (decDigits n) = n := by
  have key : ∀ l : List Nat, ofDigits l.reverse = Nat.ofDigits 10 l := by
    intro l
    induction l with
    | nil => rfl
    | cons d l ih =>
      rw [List.reverse_cons, ofDigits_append, ih, Nat.ofDigits_cons]
      simp [ofDigits]
      ring
  unfold decDigits
  split
  · next h => simp [h, ofDigits]
  · rw [key, Nat.ofDigits_digits]

/-- The first digit of a positive number is not zero. -/
theorem decDigits_head {n : Nat} (hn : n ≠ 0) :
    ∃ d ds, decDigits n = d :: ds ∧ d ≠ 0 := by
  cases h : decDigits n with
  | nil => exact absurd h (decDigits_ne_nil n)
  | cons d ds =>
    refine ⟨d, ds, rfl, ?_⟩
    rintro rfl
    rw [decDigits, if_neg hn] at h
    have hl := Nat.getLast_digit_ne_zero 10 hn
    apply hl
    have : (Nat.digits 10 n).getLast (Nat.digits_ne_nil_iff_ne_zero.mpr hn) = 0 := by
      have h2 : Nat.digits 10 n = ds.reverse ++ [0] := by
        rw [← List.reverse_reverse (Nat.digits 10 n), h, List.reverse_cons]
      simp [h2]
    exact this

/-! ## Numbers -/

/-- What may follow a number: the end, a comma or a closing bracket. -/
def Stops : PyStr → Prop
  | [] => True
  | c :: _ => c.val = 0x2C ∨ c.val = 0x5D ∨ c.val = 0x7D

theorem Stops.noDigit {rest : PyStr} (h : Stops rest) : NoDigit rest := by
  cases rest with
  | nil => trivial
  | cons c rest =>
    show digitVal? c = none
    unfold digitVal?
    rw [if_neg]
    rcases h with h | h | h <;> omega

theorem Stops.frac {rest : PyStr} (h : Stops rest) : parseFrac? rest = none := by
  cases rest with
  | nil => rfl
  | cons c rest =>
    show (if c.val = 0x2E ∧ (spanDigits rest).1 ≠ [] then some (spanDigits rest) else none) = none
    rw [if_neg]
    rintro ⟨h1, -⟩
    rcases h with h | h | h <;> omega

theorem Stops.exp {rest : PyStr} (h : Stops rest) : parseExp? rest = none := by
  cases rest with
  | nil => rfl
  | cons c rest =>
    have hc : ¬(c.val = 0x65 ∨ c.val = 0x45) := by rcases h with h | h | h <;> omega
    simp [parseExp?, hc]

/-- The integer part of a digit run whose first digit is not a lone zero. -/
theorem parseIntPart_map {d : Nat} {ds : List Nat} {rest : PyStr} (hd : d ≠ 0)
    (hlt : ∀ x ∈ d :: ds, x < 10) (hrest : NoDigit rest) :
    parseIntPart ((d :: ds).map digitCp ++ rest) = some (d :: ds, rest) := by
  have h0 := digitVal?_digitCp (hlt d (List.mem_cons_self ..))
  have hs := spanDigits_map ds rest (fun x hx => hlt x (List.mem_cons_of_mem _ hx)) hrest
  rw [List.map_cons, List.cons_append, parseIntPart, h0, hs]
  cases d with
  | zero => exact absurd rfl hd
  | succ d => rfl

theorem parseIntPart_natText {n : Nat} {rest : PyStr} (hrest : NoDigit rest) :
    parseIntPart (natText n ++ rest) = some (decDigits n, rest) := by
  rw [natText_eq]
  by_cases hn : n = 0
  · subst hn
    rfl
  · obtain ⟨d, ds, h, hd⟩ := decDigits_head hn
    have hlt : ∀ x ∈ d :: ds, x < 10 := fun x hx => decDigits_lt (n := n) (h ▸ hx)
    rw [h]
    exact parseIntPart_map hd hlt hrest

theorem parseUnsigned_int (neg : Bool) {n : Nat} {rest : PyStr} (hrest : Stops rest)
    (hlen : (natText n).length ≤ maxStrDigits) :
    parseUnsigned neg (natText n ++ rest)
      = .ok (.int (if neg then -(n : Int) else n), rest) := by
  unfold parseUnsigned
  rw [parseIntPart_natText hrest.noDigit]
  simp only [hrest.frac, hrest.exp, Option.map_none, Option.getD_none, Option.isNone_none,
    and_self, if_true]
  rw [natText_eq, List.length_map] at hlen
  rw [if_neg (by omega), ofDigits_decDigits]

/-- The exponent `expText e` reads back as `e`. -/
theorem parseExp?_expText (e : Int) {rest : PyStr} (hrest : NoDigit rest) :
    parseExp? (lit "e" ++ expText e ++ rest) = some (e, rest) := by
  have hdig : ∀ neg : Bool, parseExpDigits? neg
      ((if e.natAbs < 10 then lit "0" else []) ++ natText e.natAbs ++ rest)
      = some (if neg then -(e.natAbs : Int) else (e.natAbs : Int), rest) := by
    intro neg
    have key : ∀ pre : List Nat, (∀ x ∈ pre, x < 10) → ofDigits pre = 0 →
        parseExpDigits? neg (pre.map digitCp ++ natText e.natAbs ++ rest)
          = some (if neg then -(e.natAbs : Int) else (e.natAbs : Int), rest) := by
      intro pre hpre h0
      have hs : spanDigits (pre.map digitCp ++ natText e.natAbs ++ rest)
          = (pre ++ decDigits e.natAbs, rest) := by
        rw [natText_eq, ← List.map_append]
        refine spanDigits_map _ rest ?_ hrest
        intro x hx
        rcases List.mem_append.mp hx with hx | hx
        · exact hpre x hx
        · exact decDigits_lt hx
      unfold parseExpDigits?
      rw [hs, if_neg (by simp [decDigits_ne_nil])]
      simp only [ofDigits_append, h0, ofDigits_decDigits, Nat.zero_mul, Nat.zero_add]
    split
    · exact key [0] (by simp) rfl
    · exact key [] (by simp) rfl
  unfold expText
  split
  · next hneg =>
    have h := hdig true
    have he : (-(e.natAbs : Int)) = e := by omega
    simp only [if_true, he] at h
    rw [← h]
    simp only [List.append_assoc]
    rfl
  · next hneg =>
    have h := hdig false
    have he : (e.natAbs : Int) = e := by omega
    simp only [Bool.false_eq_true, if_false, he] at h
    rw [← h]
    simp only [List.append_assoc]
    rfl

/-- A point and a digit run read back. -/
theorem parseFrac?_map {ds : List Nat} {rest : PyStr} (hne : ds ≠ [])
    (hlt : ∀ x ∈ ds, x < 10) (hrest : NoDigit rest) :
    parseFrac? (lit "." ++ ds.map digitCp ++ rest) = some (ds, rest) := by
  have hs := spanDigits_map ds rest hlt hrest
  show (if (cp 0x2E).val = 0x2E ∧ (spanDigits (ds.map digitCp ++ rest)).1 ≠ [] then
    some (spanDigits (ds.map digitCp ++ rest)) else none) = some (ds, rest)
  rw [hs, if_pos ⟨rfl, hne⟩]

/-- A number with a fraction and no exponent. -/
theorem parseUnsigned_frac (neg : Bool) {s : PyStr} {ip fd : List Nat} {rest : PyStr}
    (h1 : parseIntPart s = some (ip, lit "." ++ fd.map digitCp ++ rest))
    (hne : fd ≠ []) (hlt : ∀ x ∈ fd, x < 10) (hrest : NoDigit rest)
    (hexp : parseExp? rest = none) :
    parseUnsigned neg s
      = .ok (.float (readFloat neg ⟨ofDigits (ip ++ fd), 0 - fd.length⟩), rest) := by
  unfold parseUnsigned
  rw [h1]
  simp only [parseFrac?_map hne hlt hrest, hexp, Option.map_some, Option.getD_some,
    Option.map_none, Option.getD_none, Option.isNone_some, Bool.false_eq_true, false_and,
    if_false]

/-- A number with an exponent and maybe a fraction. -/
theorem parseUnsigned_exp (neg : Bool) {s s1 : PyStr} {ip fd : List Nat} {e : Int}
    {rest : PyStr} (h1 : parseIntPart s = some (ip, s1))
    (h2 : s1 = (if fd = [] then [] else lit "." ++ fd.map digitCp)
      ++ (lit "e" ++ expText e ++ rest))
    (hlt : ∀ x ∈ fd, x < 10) (hrest : NoDigit rest) :
    parseUnsigned neg s
      = .ok (.float (readFloat neg ⟨ofDigits (ip ++ fd), e - fd.length⟩), rest) := by
  have hexp := parseExp?_expText e hrest
  have hnd : NoDigit (lit "e" ++ expText e ++ rest) := rfl
  unfold parseUnsigned
  rw [h1]
  by_cases hfd : fd = []
  · subst hfd
    rw [if_pos rfl, List.nil_append] at h2
    have hfrac : parseFrac? s1 = none := by
      rw [h2]
      rfl
    rw [← h2] at hexp
    simp only [hfrac, hexp, Option.map_none, Option.getD_none, Option.map_some,
      Option.getD_some, Option.isNone_none, Option.isNone_some, Bool.false_eq_true, and_false,
      if_false]
  · rw [if_neg hfd] at h2
    have hfrac := parseFrac?_map hfd hlt hnd
    rw [← h2] at hfrac
    simp only [hfrac, hexp, Option.map_some, Option.getD_some, Option.isNone_some,
      Bool.false_eq_true, false_and, if_false]

/-- Reading a decimal depends on its value only. -/
theorem readFloat_congr (neg : Bool) {d d' : Decimal} (h : d.value = d'.value) :
    readFloat neg d = readFloat neg d' := by
  unfold readFloat Decimal.read
  rw [h]

theorem float_result_congr (neg : Bool) (rest : PyStr) {d d' : Decimal}
    (h : d.value = d'.value) :
    (.ok (.float (readFloat neg d), rest) : Except JsonError (Json × PyStr))
      = .ok (.float (readFloat neg d'), rest) := by
  rw [readFloat_congr neg h]

theorem take_pos_eq_cons {d : Nat} {ds : List Nat} {k : Nat} (hk : 0 < k) :
    (d :: ds).take k = d :: ds.take (k - 1) := by
  cases k with
  | zero => omega
  | succ k => rfl

/-- The `repr` text of a decimal reads back as a float of that value. -/
theorem parseUnsigned_decimalText (neg : Bool) (d : Decimal) {rest : PyStr}
    (hrest : Stops rest) :
    parseUnsigned neg (decimalText d ++ rest) = .ok (.float (readFloat neg d), rest) := by
  have hnd := hrest.noDigit
  by_cases h0 : d.coeff = 0
  · have ht : decimalText d = lit "0.0" := by unfold decimalText; rw [if_pos h0]
    have h1 : parseIntPart (decimalText d ++ rest)
        = some ([0], lit "." ++ [0].map digitCp ++ rest) := by rw [ht]; rfl
    rw [parseUnsigned_frac neg h1 (by simp) (by simp) hnd hrest.exp]
    refine float_result_congr neg rest ?_
    simp [Decimal.value, h0, ofDigits]
  obtain ⟨a, as, hds, ha⟩ := decDigits_head h0
  have hlt : ∀ x ∈ a :: as, x < 10 := fun x hx => decDigits_lt (n := d.coeff) (hds ▸ hx)
  have hof : ofDigits (a :: as) = d.coeff := by rw [← hds, ofDigits_decDigits]
  have htext : natText d.coeff = (a :: as).map digitCp := by rw [natText_eq, hds]
  have hlen : (natText d.coeff).length = (a :: as).length := by rw [htext, List.length_map]
  unfold decimalText
  simp only [if_neg h0, hlen]
  split
  · next hp =>
    split
    · -- `0.000ddd`
      next hle =>
      have h1 : parseIntPart (lit "0." ++ List.replicate (-(d.exp + ((a :: as).length : Int))).toNat
            (digitCp 0) ++ natText d.coeff ++ rest)
          = some ([0], lit "." ++ (List.replicate (-(d.exp + ((a :: as).length : Int))).toNat 0
            ++ (a :: as)).map digitCp ++ rest) := by
        rw [htext, List.map_append, List.map_replicate]
        simp only [List.append_assoc]
        rfl
      rw [parseUnsigned_frac neg h1 (by simp) ?_ hnd hrest.exp]
      · refine float_result_congr neg rest ?_
        rw [← List.append_assoc, ofDigits_append, hof,
          show ([0] ++ List.replicate (-(d.exp + ((a :: as).length : Int))).toNat 0 : List Nat)
            = List.replicate ((-(d.exp + ((a :: as).length : Int))).toNat + 1) 0 from rfl,
          ofDigits_replicate_zero]
        have he : (0 : Int) - (List.replicate (-(d.exp + ((a :: as).length : Int))).toNat 0
            ++ (a :: as)).length = d.exp := by
          simp only [List.length_append, List.length_replicate]
          omega
        rw [he]
        simp [Decimal.value]
      · intro x hx
        rcases List.mem_append.mp hx with hx | hx
        · rw [List.eq_of_mem_replicate hx]; omega
        · exact hlt x hx
    split
    · -- `ddd000.0`
      next hnle hge =>
      have hnz : NoDigit (lit "." ++ [0].map digitCp ++ rest) := rfl
      have h1 : parseIntPart (natText d.coeff
            ++ List.replicate ((d.exp + ((a :: as).length : Int)).toNat - (a :: as).length)
              (digitCp 0) ++ lit ".0" ++ rest)
          = some (a :: (as ++ List.replicate
              ((d.exp + ((a :: as).length : Int)).toNat - (a :: as).length) 0),
            lit "." ++ [0].map digitCp ++ rest) := by
        have hp := @parseIntPart_map a (as ++ List.replicate
          ((d.exp + ((a :: as).length : Int)).toNat - (a :: as).length) 0) _ ha ?_ hnz
        · rw [← hp, htext]
          simp only [List.map_cons, List.map_append, List.map_replicate, List.append_assoc,
            List.cons_append]
          rfl
        · intro x hx
          rw [← List.cons_append] at hx
          rcases List.mem_append.mp hx with hx | hx
          · exact hlt x hx
          · rw [List.eq_of_mem_replicate hx]; omega
      rw [parseUnsigned_frac neg h1 (by simp) (by simp) hnd hrest.exp]
      refine float_result_congr neg rest ?_
      have hk : ((d.exp + ((a :: as).length : Int)).toNat - (a :: as).length : Nat)
          = d.exp.toNat := by omega
      have hnn : 0 ≤ d.exp := by omega
      rw [hk, ← List.cons_append, ofDigits_append, ofDigits_append, hof,
        ofDigits_replicate_zero]
      have hz : (10 : ℚ) ^ d.exp = 10 ^ d.exp.toNat := by
        conv_lhs => rw [← Int.toNat_of_nonneg hnn]
        exact zpow_natCast ..
      simp only [Decimal.value, hz, List.length_replicate, List.length_singleton, ofDigits,
        List.foldl_cons, List.foldl_nil]
      push_cast
      norm_num
      ring
    · -- `dd.ddd`
      next hnle hnge =>
      have hk : 0 < (d.exp + ((a :: as).length : Int)).toNat := by omega
      have hk2 : (d.exp + ((a :: as).length : Int)).toNat < (a :: as).length := by omega
      generalize hkk : (d.exp + ((a :: as).length : Int)).toNat = k at hk hk2
      have hdrop : (a :: as).drop k ≠ [] := by
        rw [Ne, List.drop_eq_nil_iff]
        omega
      have hdot : NoDigit (lit "." ++ ((a :: as).drop k).map digitCp ++ rest) := rfl
      have h1 : parseIntPart ((natText d.coeff).take k ++ lit "." ++ (natText d.coeff).drop k
            ++ rest)
          = some ((a :: as).take k, lit "." ++ ((a :: as).drop k).map digitCp ++ rest) := by
        rw [htext, ← List.map_take, ← List.map_drop, take_pos_eq_cons hk]
        have hp := @parseIntPart_map a (as.take (k - 1)) _ ha ?_ hdot
        · rw [← hp]
          simp only [List.append_assoc]
        · intro x hx
          rw [← take_pos_eq_cons hk] at hx
          exact hlt x (List.mem_of_mem_take hx)
      rw [parseUnsigned_frac neg h1 hdrop (fun x hx => hlt x (List.mem_of_mem_drop hx)) hnd
        hrest.exp, List.take_append_drop, hof]
      refine float_result_congr neg rest ?_
      have he : (0 : Int) - ((a :: as).drop k).length = d.exp := by
        rw [List.length_drop]
        omega
      rw [he]
  · -- `d.ddde+XX`
    next hp =>
    have hnat : (natText d.coeff).take 1 = [digitCp a] := by rw [htext]; rfl
    have hdrop : (natText d.coeff).drop 1 = as.map digitCp := by rw [htext]; rfl
    have htail : NoDigit ((if as = [] then [] else lit "." ++ as.map digitCp)
        ++ (lit "e" ++ expText (d.exp + ((a :: as).length : Int) - 1) ++ rest)) := by
      split <;> rfl
    have h1 := @parseIntPart_map a [] _ ha (by simpa using hlt a (by simp)) htail
    have hif : (if (a :: as).length = 1 then ([] : PyStr) else lit "." ++ (natText d.coeff).drop 1)
        = if as = [] then [] else lit "." ++ as.map digitCp := by
      rw [hdrop]
      cases as <;> simp
    have key := @parseUnsigned_exp neg _ _ _ as _ _ h1 rfl
      (fun x hx => hlt x (List.mem_cons_of_mem _ hx)) hnd
    rw [hnat, hif]
    simp only [List.map_cons, List.map_nil, List.append_assoc, List.cons_append,
      List.nil_append] at key ⊢
    rw [key]
    refine float_result_congr neg rest ?_
    have he : d.exp + ((a :: as).length : Int) - 1 - as.length = d.exp := by
      rw [List.length_cons]
      push_cast
      ring
    rw [he, hof]

/-- Zeros at the end do not count. -/
theorem stripZeros_value (fuel : Nat) (d : Decimal) : (stripZeros fuel d).value = d.value := by
  induction fuel generalizing d with
  | zero => rfl
  | succ fuel ih =>
    rw [stripZeros]
    split
    · next h =>
      rw [ih]
      obtain ⟨q, hq⟩ := Nat.dvd_of_mod_eq_zero h.2
      simp only [Decimal.value]
      rw [hq, Nat.mul_div_cancel_left q (by norm_num), zpow_add₀ (by norm_num)]
      push_cast
      ring
    · rfl

/-- `repr` of a finite float reads back as that float. -/
theorem parseUnsigned_floatText (neg : Bool) (mag : Magnitude) {rest : PyStr}
    (hrest : Stops rest) :
    parseUnsigned neg (decimalText (stripZeros 20 mag.shortest) ++ rest)
      = .ok (.float (.finite neg mag), rest) := by
  rw [parseUnsigned_decimalText neg _ hrest, readFloat_congr neg (stripZeros_value 20 _)]
  unfold readFloat
  rw [mag.read_shortest]

/-! ## Strings -/

theorem hexVal?_hexCp {d : Nat} (h : d < 16) : hexVal? (hexCp d) = some d := by
  interval_cases d <;> rfl

/-- One escaped character reads back. -/
theorem parseStringBody_escapeChar (fuel : Nat) (c : CodePoint) (rest : PyStr) :
    parseStringBody (fuel + 1) (escapeChar c ++ rest)
      = (parseStringBody fuel rest).map fun r => (c :: r.1, r.2) := by
  unfold escapeChar
  split
  · next h => rw [← cp_eq_of_val h.symm]; rfl
  split
  · next h => rw [← cp_eq_of_val h.symm]; rfl
  split
  · next h => rw [← cp_eq_of_val h.symm]; rfl
  split
  · next h => rw [← cp_eq_of_val h.symm]; rfl
  split
  · next h => rw [← cp_eq_of_val h.symm]; rfl
  split
  · next h => rw [← cp_eq_of_val h.symm]; rfl
  split
  · next h => rw [← cp_eq_of_val h.symm]; rfl
  split
  · -- a control character: `\u00` and two hexadecimal digits
    next h =>
    have h1 := hexVal?_hexCp (d := c.val / 16) (by omega)
    have h2 := hexVal?_hexCp (d := c.val % 16) (by omega)
    have h4 : hex4? (cp 0x30 :: cp 0x30 :: hexCp (c.val / 16) :: hexCp (c.val % 16) :: rest)
        = some (c.val, rest) := by
      have h0 : hexVal? (cp 0x30) = some 0 := rfl
      simp only [hex4?, h0, h1, h2]
      exact congrArg (fun n => some (n, rest)) (by omega)
    show parseStringBody (fuel + 1) (cp 0x5C :: cp 0x75 :: cp 0x30 :: cp 0x30
      :: hexCp (c.val / 16) :: hexCp (c.val % 16) :: rest) = _
    rw [parseStringBody, if_neg (by decide), if_pos (by decide), if_pos (by decide), h4]
    dsimp only
    rw [if_neg (show ¬(0xD800 ≤ c.val ∧ c.val ≤ 0xDBFF) by omega), cp_eq_of_val rfl]
  · next h22 h5c _ _ _ _ _ h20 =>
    show parseStringBody (fuel + 1) (c :: rest) = _
    rw [parseStringBody.eq_def]
    dsimp only
    rw [if_neg h22, if_neg h5c, if_neg h20]

/-- A quoted string reads back. -/
theorem parseStringBody_flatMap (s : PyStr) : ∀ (fuel : Nat) (rest : PyStr), s.length < fuel →
    parseStringBody fuel (s.flatMap escapeChar ++ lit "\"" ++ rest) = some (s, rest) := by
  induction s with
  | nil =>
    intro fuel rest h
    obtain ⟨f, rfl⟩ : ∃ f, fuel = f + 1 := ⟨fuel - 1, by omega⟩
    rfl
  | cons c s ih =>
    intro fuel rest h
    rw [List.length_cons] at h
    obtain ⟨f, rfl⟩ : ∃ f, fuel = f + 1 := ⟨fuel - 1, by omega⟩
    rw [List.flatMap_cons]
    simp only [List.append_assoc]
    rw [parseStringBody_escapeChar]
    have := ih f rest (by omega)
    simp only [List.append_assoc] at this
    rw [this]
    rfl

theorem escapeChar_length (c : CodePoint) : 1 ≤ (escapeChar c).length := by
  unfold escapeChar
  repeat' split
  all_goals exact Nat.le_add_left ..

theorem length_le_flatMap_escapeChar (s : PyStr) : s.length ≤ (s.flatMap escapeChar).length := by
  induction s with
  | nil => exact Nat.le_refl _
  | cons c s ih =>
    have := escapeChar_length c
    rw [List.flatMap_cons, List.length_append, List.length_cons]
    omega

theorem parseString_stringText (s rest : PyStr) :
    parseString (s.flatMap escapeChar ++ lit "\"" ++ rest) = some (s, rest) := by
  have h := length_le_flatMap_escapeChar s
  refine parseStringBody_flatMap s _ rest ?_
  have h1 : (lit "\"").length = 1 := rfl
  rw [List.length_append, List.length_append, h1]
  omega

/-! ## Values -/

mutual
/-- How deep the containers of a value nest. -/
def depth : Json → Nat
  | .arr xs => depthList xs + 1
  | .obj m => depthMembers m + 1
  | _ => 0

def depthList : List Json → Nat
  | [] => 0
  | x :: xs => max (depth x) (depthList xs)

def depthMembers : List (PyStr × Json) → Nat
  | [] => 0
  | (_, v) :: rest => max (depth v) (depthMembers rest)
end

theorem depth_le_depthList {x : Json} {xs : List Json} (h : x ∈ xs) : depth x ≤ depthList xs := by
  induction xs with
  | nil => exact absurd h (by simp)
  | cons y ys ih =>
    rw [depthList]
    rcases List.mem_cons.mp h with rfl | h
    · omega
    · have := ih h
      omega

/-- A value is no deeper than the members it is among. -/
theorem depth_le_depthMembers {kv : PyStr × Json} {m : List (PyStr × Json)} (h : kv ∈ m) :
    depth kv.2 ≤ depthMembers m := by
  induction m with
  | nil => exact absurd h (by simp)
  | cons y ys ih =>
    obtain ⟨k, v⟩ := y
    rw [depthMembers]
    rcases List.mem_cons.mp h with rfl | h
    · show depth v ≤ _
      omega
    · have := ih h
      omega

/-- The text of a value, when it has one. -/
def textOf (v : Json) : PyStr := (dumps v).getD []

/-- What a value's text starts with: an ASCII character, not whitespace and not a
closing bracket. -/
def Starts (t : PyStr) : Prop :=
  ∃ c t', t = c :: t' ∧ isJsonSpace c = false ∧ c.val < 0x80 ∧ c.val ≠ 0x5D ∧ c.val ≠ 0x7D

/-- The text of `v` reads back as the canonical form of `v`, whatever follows it. -/
def ReadsBack (v : Json) : Prop :=
  ∀ t, dumps v = some t → Starts t ∧
    ∀ d rest, depth v ≤ d → Stops rest → parseValue d (t ++ rest) = .ok (canon v, rest)

theorem skipWs_starts {t : PyStr} (h : Starts t) (rest : PyStr) :
    skipWs (t ++ rest) = t ++ rest := by
  obtain ⟨c, t', rfl, hc, -⟩ := h
  simp [skipWs, hc]

theorem skipWs_stops {rest : PyStr} (h : Stops rest) : skipWs rest = rest := by
  cases rest with
  | nil => rfl
  | cons c rest =>
    have hc : isJsonSpace c = false := by
      unfold isJsonSpace
      rcases h with h | h | h <;> simp [h]
    simp [skipWs, hc]

theorem joinComma_cons (t : PyStr) {ts : List PyStr} (h : ts ≠ []) :
    joinComma (t :: ts) = t ++ lit "," ++ joinComma ts := by
  cases ts with
  | nil => exact absurd rfl h
  | cons u us => rfl

/-- There are no more texts than characters of what they are joined to. -/
theorem length_le_joinComma (ts : List PyStr) (h : ∀ t ∈ ts, t ≠ []) :
    ts.length ≤ (joinComma ts).length := by
  induction ts with
  | nil => exact Nat.le_refl _
  | cons t ts ih =>
    have ht : 1 ≤ t.length := List.length_pos_iff.mpr (h t (List.mem_cons_self ..))
    have ih' := ih fun u hu => h u (List.mem_cons_of_mem _ hu)
    cases ts with
    | nil => simpa [joinComma] using ht
    | cons u us =>
      rw [joinComma_cons t (by simp), List.length_append, List.length_append, List.length_cons]
      have : (lit ",").length = 1 := rfl
      omega

theorem Starts.ne_nil {t : PyStr} (h : Starts t) : t ≠ [] := by
  obtain ⟨c, t', rfl, -⟩ := h
  simp

/-- After an element and a comma the loop goes on behind it. -/
theorem parseElems_comma {pv : ValueParser} {fuel : Nat} {s r rest : PyStr} {v : Json}
    (hpv : pv s = .ok (v, r)) (hr : skipWs r = cp 0x2C :: rest) :
    parseElems pv (fuel + 1) s
      = (parseElems pv fuel (skipWs rest)).map fun p => (v :: p.1, p.2) := by
  rw [parseElems, hpv]
  dsimp only
  rw [hr]
  dsimp only
  rw [if_neg (by decide), if_pos (by decide)]
  cases parseElems pv fuel (skipWs rest) <;> rfl

/-- The element loop reads back a nonempty array. -/
theorem parseElems_joinComma {d : Nat} {rest : PyStr} :
    ∀ (xs : List Json) (fuel : Nat), xs ≠ [] → xs.length ≤ fuel →
      (∀ x ∈ xs, Starts (textOf x) ∧ ∀ r, Stops r →
        parseValue d (textOf x ++ r) = .ok (canon x, r)) →
      parseElems (parseValue d) fuel (joinComma (xs.map textOf) ++ lit "]" ++ rest)
        = .ok (canonList xs, rest)
  | [], _, hne, _, _ => absurd rfl hne
  | x :: xs, 0, _, hf, _ => by simp at hf
  | x :: xs, fuel + 1, _, hf, hx => by
    obtain ⟨-, hpx⟩ := hx x (List.mem_cons_self ..)
    rw [List.length_cons] at hf
    by_cases hxs : xs = []
    · subst hxs
      have hstop : Stops (lit "]" ++ rest) := Or.inr (Or.inl rfl)
      have hp := hpx _ hstop
      simp only [List.map_cons, List.map_nil, joinComma, List.append_assoc, parseElems]
      rw [hp]
      dsimp only
      rw [skipWs_stops hstop]
      rfl
    · have hstop : Stops (lit "," ++ joinComma (xs.map textOf) ++ lit "]" ++ rest) := Or.inl rfl
      have hp := hpx _ hstop
      have ih := @parseElems_joinComma d rest xs fuel hxs (by omega)
        fun y hy => hx y (List.mem_cons_of_mem _ hy)
      have hjs : Starts (joinComma (xs.map textOf)) := by
        cases xs with
        | nil => exact absurd rfl hxs
        | cons y ys =>
          obtain ⟨⟨c, t', hc, hrest⟩, -⟩ := hx y (by simp)
          by_cases hys : ys = []
          · subst hys
            exact ⟨c, t', by simpa [joinComma] using hc, hrest⟩
          · refine ⟨c, t' ++ lit "," ++ joinComma (ys.map textOf), ?_, hrest⟩
            rw [List.map_cons, joinComma_cons _ (by simpa using hys), hc]
            simp
      rw [List.map_cons, joinComma_cons _ (by simpa using hxs)]
      simp only [List.append_assoc] at hp hstop ih ⊢
      have hcomma : skipWs (lit "," ++ (joinComma (xs.map textOf) ++ (lit "]" ++ rest)))
          = cp 0x2C :: (joinComma (xs.map textOf) ++ (lit "]" ++ rest)) := skipWs_stops hstop
      rw [parseElems_comma hp hcomma, skipWs_starts hjs (lit "]" ++ rest), ih]
      rfl

/-- The text of a member. -/
def memberOf (kv : PyStr × Json) : PyStr := memberText (kv.1, textOf kv.2)

theorem memberOf_append (kv : PyStr × Json) (rest : PyStr) :
    memberOf kv ++ rest = cp 0x22 :: (kv.1.flatMap escapeChar ++ lit "\""
      ++ (cp 0x3A :: (textOf kv.2 ++ rest))) := by
  unfold memberOf memberText stringText
  simp only [List.append_assoc]
  rfl

theorem memberOf_starts (kv : PyStr × Json) : Starts (memberOf kv) := by
  have h := memberOf_append kv []
  rw [List.append_nil] at h
  exact ⟨_, _, h, rfl, by decide, by decide, by decide⟩

/-- What the member loop does behind the value of a member. -/
def membersAfter (pv : ValueParser) (fuel : Nat) (kv : PyStr × Json) (s : PyStr) :
    Except JsonError (List (PyStr × Json) × PyStr) :=
  match skipWs s with
  | [] => .error .decode
  | c :: rest =>
    if c.val = 0x7D then .ok ([kv], rest)
    else if c.val = 0x2C then (parseMembers pv fuel (skipWs rest)).map fun p => (kv :: p.1, p.2)
    else .error .decode

/-- One member up to what follows it. -/
theorem parseMembers_memberOf {d fuel : Nat} {kv : PyStr × Json} {r : PyStr}
    (hst : Starts (textOf kv.2)) (hp : parseValue d (textOf kv.2 ++ r) = .ok (canon kv.2, r)) :
    parseMembers (parseValue d) (fuel + 1) (memberOf kv ++ r)
      = membersAfter (parseValue d) fuel (kv.1, canon kv.2) r := by
  rw [memberOf_append, parseMembers]
  rw [if_neg (by decide), parseString_stringText]
  dsimp only
  rw [show skipWs (cp 0x3A :: (textOf kv.2 ++ r)) = cp 0x3A :: (textOf kv.2 ++ r) from rfl]
  dsimp only
  rw [if_neg (by decide), skipWs_starts hst, hp]
  dsimp only
  unfold membersAfter
  cases skipWs r with
  | nil => rfl
  | cons c rest =>
    dsimp only
    cases parseMembers (parseValue d) fuel (skipWs rest) <;> rfl

/-- The member loop reads back a nonempty object. -/
theorem parseMembers_joinComma {d : Nat} {rest : PyStr} :
    ∀ (m : List (PyStr × Json)) (fuel : Nat), m ≠ [] → m.length ≤ fuel →
      (∀ kv ∈ m, Starts (textOf kv.2) ∧ ∀ r, Stops r →
        parseValue d (textOf kv.2 ++ r) = .ok (canon kv.2, r)) →
      parseMembers (parseValue d) fuel (joinComma (m.map memberOf) ++ lit "\x7d" ++ rest)
        = .ok (m.map fun kv => (kv.1, canon kv.2), rest)
  | [], _, hne, _, _ => absurd rfl hne
  | kv :: m, 0, _, hf, _ => by simp at hf
  | kv :: m, fuel + 1, _, hf, hx => by
    obtain ⟨hst, hpx⟩ := hx kv (List.mem_cons_self ..)
    rw [List.length_cons] at hf
    have hone : ∀ r, Stops r → parseMembers (parseValue d) (fuel + 1) (memberOf kv ++ r)
        = membersAfter (parseValue d) fuel (kv.1, canon kv.2) r := by
      intro r hr
      exact parseMembers_memberOf hst (hpx r hr)
    by_cases hm : m = []
    · subst hm
      have hstop : Stops (lit "\x7d" ++ rest) := Or.inr (Or.inr rfl)
      simp only [List.map_cons, List.map_nil, joinComma, List.append_assoc]
      rw [hone _ hstop]
      unfold membersAfter
      rw [skipWs_stops hstop]
      rfl
    · have hstop : Stops (lit "," ++ (joinComma (m.map memberOf) ++ (lit "\x7d" ++ rest))) :=
        Or.inl rfl
      have ih := @parseMembers_joinComma d rest m fuel hm (by omega)
        fun y hy => hx y (List.mem_cons_of_mem _ hy)
      have hjs : Starts (joinComma (m.map memberOf)) := by
        cases m with
        | nil => exact absurd rfl hm
        | cons y ys =>
          obtain ⟨c, t', hc, hrest⟩ := memberOf_starts y
          by_cases hys : ys = []
          · subst hys
            exact ⟨c, t', by simpa [joinComma] using hc, hrest⟩
          · refine ⟨c, t' ++ lit "," ++ joinComma (ys.map memberOf), ?_, hrest⟩
            rw [List.map_cons, joinComma_cons _ (by simpa using hys), hc]
            simp
      rw [List.map_cons, joinComma_cons _ (by simpa using hm)]
      simp only [List.append_assoc] at ih ⊢
      rw [hone _ hstop]
      unfold membersAfter
      rw [skipWs_stops hstop]
      have hsk := skipWs_starts hjs (lit "\x7d" ++ rest)
      show (parseMembers (parseValue d) fuel
          (skipWs (joinComma (m.map memberOf) ++ (lit "\x7d" ++ rest)))).map _ = _
      rw [hsk, ih]
      rfl

/-- The texts of a list are those of its elements; the induction is on the list. -/
theorem dumpsList_eq : ∀ {xs : List Json} {ts : List PyStr}, dumpsList xs = some ts →
    ts = xs.map textOf ∧ ∀ x ∈ xs, dumps x = some (textOf x)
  | [], ts, h => by
    obtain rfl := Option.some.inj (h : some [] = some ts)
    exact ⟨rfl, by simp⟩
  | x :: xs, ts, h => by
    rw [dumpsList] at h
    cases h1 : dumps x with
    | none => simp [h1] at h
    | some t =>
      cases h2 : dumpsList xs with
      | none => simp [h1, h2] at h
      | some us =>
        simp only [h1, h2, Option.some.injEq] at h
        obtain ⟨ih1, ih2⟩ := dumpsList_eq h2
        have ht : textOf x = t := by simp [textOf, h1]
        refine ⟨by rw [← h, List.map_cons, ht, ih1], ?_⟩
        intro y hy
        rcases List.mem_cons.mp hy with rfl | hy
        · rw [h1, ht]
        · exact ih2 y hy

/-- The same for the members of an object. -/
theorem dumpsMembers_eq : ∀ {m : List (PyStr × Json)} {ts : List (PyStr × PyStr)},
    dumpsMembers m = some ts →
    ts = m.map (fun kv => (kv.1, textOf kv.2)) ∧ ∀ kv ∈ m, dumps kv.2 = some (textOf kv.2)
  | [], ts, h => by
    obtain rfl := Option.some.inj (h : some [] = some ts)
    exact ⟨rfl, by simp⟩
  | (k, v) :: m, ts, h => by
    rw [dumpsMembers] at h
    cases h1 : dumps v with
    | none => simp [h1] at h
    | some t =>
      cases h2 : dumpsMembers m with
      | none => simp [h1, h2] at h
      | some us =>
        simp only [h1, h2, Option.some.injEq] at h
        obtain ⟨ih1, ih2⟩ := dumpsMembers_eq h2
        have ht : textOf v = t := by simp [textOf, h1]
        refine ⟨by rw [← h, List.map_cons, ht, ih1], ?_⟩
        intro y hy
        rcases List.mem_cons.mp hy with rfl | hy
        · rw [h1, ht]
        · exact ih2 y hy

/-- Sorting by name does not look at the values. -/
theorem sortMembers_map {α β : Type} (g : α → β) (m : List (PyStr × α)) :
    sortMembers (m.map fun kv => (kv.1, g kv.2)) = (sortMembers m).map fun kv =>
    (kv.1, g kv.2) := by
  exact (List.map_insertionSort (r := fun a b : PyStr × α => strLe a.1 b.1 = true)
    (s := fun a b : PyStr × β => strLe a.1 b.1 = true) _ m fun _ _ _ _ => Iff.rfl).symm

theorem canonMembers_eq (m : List (PyStr × Json)) :
    canonMembers m = m.map fun kv => (kv.1, canon kv.2) := by
  induction m with
  | nil => rfl
  | cons kv m ih =>
    obtain ⟨k, v⟩ := kv
    rw [canonMembers, ih, List.map_cons]

theorem mem_sortMembers {α : Type} {kv : PyStr × α} {m : List (PyStr × α)} :
    kv ∈ sortMembers m ↔ kv ∈ m := by
  unfold sortMembers
  exact List.mem_insertionSort _

theorem length_sortMembers {α : Type} (m : List (PyStr × α)) :
    (sortMembers m).length = m.length := by
  unfold sortMembers
  exact List.length_insertionSort _ _

theorem canonList_eq (xs : List Json) : canonList xs = xs.map canon := by
  induction xs with
  | nil => rfl
  | cons x xs ih => rw [canonList, ih, List.map_cons]

/-- The first character of a number is a digit. -/
theorem natText_head (n : Nat) : ∃ d t, natText n = digitCp d :: t ∧ d < 10 := by
  rw [natText_eq]
  cases h : decDigits n with
  | nil => exact absurd h (decDigits_ne_nil n)
  | cons d ds => exact ⟨d, ds.map digitCp, rfl, decDigits_lt (n := n) (h ▸ List.mem_cons_self ..)⟩

/-- A decimal begins with a digit. -/
theorem decimalText_head (d : Decimal) : ∃ a t, decimalText d = digitCp a :: t ∧ a < 10 := by
  obtain ⟨a, t, hn, ha⟩ := natText_head d.coeff
  unfold decimalText
  simp only
  split
  · exact ⟨0, lit ".0", rfl, by decide⟩
  split
  · split
    · exact ⟨0, _, by rw [List.append_assoc]; rfl, by decide⟩
    split
    · have hcons : ∀ u v : PyStr, natText d.coeff ++ u ++ v = digitCp a :: (t ++ u ++ v) := by
        intro u v
        rw [hn, List.cons_append, List.cons_append]
      exact ⟨a, _, hcons _ _, ha⟩
    · next hp _ =>
      have hk : 0 < (d.exp + ((natText d.coeff).length : Int)).toNat := by omega
      have htake : ∀ k v, 0 < k → (natText d.coeff).take k ++ v
          = digitCp a :: (t.take (k - 1) ++ v) := by
        intro k v hpos
        obtain ⟨k, rfl⟩ : ∃ j, k = j + 1 := ⟨k - 1, by omega⟩
        rw [hn, List.take_succ_cons, List.cons_append, Nat.add_sub_cancel]
      rw [List.append_assoc]
      exact ⟨a, _, htake _ _ hk, ha⟩
  · have htake : ∀ v, (natText d.coeff).take 1 ++ v = digitCp a :: v := by
      intro v
      rw [hn]
      rfl
    simp only [List.append_assoc]
    exact ⟨a, _, htake _, ha⟩

/-- A character that a value of one of the keyword or number forms starts with. -/
theorem digitCp_val {d : Nat} (h : d < 10) : (digitCp d).val = 0x30 + d := by
  simp [digitCp]; omega

theorem dropPrefix?_ne {c a : CodePoint} {p t : PyStr} (h : c ≠ a) :
    dropPrefix? (c :: p) (a :: t) = none := by
  unfold dropPrefix?
  rw [if_neg]
  simp [h]

/-- A text that starts with a digit goes to the number scanner. -/
theorem parseValue_digit {d : Nat} (hd : d < 10) (depth : Nat) (t : PyStr) :
    parseValue depth (digitCp d :: t) = parseUnsigned false (digitCp d :: t) := by
  have hv := digitCp_val hd
  have hne : ∀ n : Nat, n < 0x110000 → n ≠ 0x30 + d → cp n ≠ digitCp d := by
    intro n hn hnd h
    have := congrArg Fin.val h
    rw [hv, cp_val, Nat.mod_eq_of_lt hn] at this
    exact hnd this
  have hnum : parseNumber (digitCp d :: t) = parseUnsigned false (digitCp d :: t) := by
    unfold parseNumber
    rw [show lit "NaN" = cp 0x4E :: lit "aN" from rfl,
      show lit "Infinity" = cp 0x49 :: lit "nfinity" from rfl,
      show lit "-Infinity" = cp 0x2D :: lit "Infinity" from rfl,
      dropPrefix?_ne (hne _ (by decide) (by omega)), dropPrefix?_ne (hne _ (by decide) (by omega)),
      dropPrefix?_ne (hne _ (by decide) (by omega))]
    dsimp only
    rw [if_neg (by omega)]
  rw [parseValue.eq_def]
  dsimp only
  rw [if_neg (by omega), if_neg (by omega), if_neg (by omega),
    show lit "null" = cp 0x6E :: lit "ull" from rfl,
    show lit "true" = cp 0x74 :: lit "rue" from rfl,
    show lit "false" = cp 0x66 :: lit "alse" from rfl,
    dropPrefix?_ne (hne _ (by decide) (by omega)), dropPrefix?_ne (hne _ (by decide) (by omega)),
    dropPrefix?_ne (hne _ (by decide) (by omega)), hnum]

/-- A minus sign in front of a digit goes to the number scanner too. -/
theorem parseValue_minus {d : Nat} (hd : d < 10) (depth : Nat) (t : PyStr) :
    parseValue depth (cp 0x2D :: digitCp d :: t) = parseUnsigned true (digitCp d :: t) := by
  have hv := digitCp_val hd
  have hinf : dropPrefix? (lit "-Infinity") (cp 0x2D :: digitCp d :: t) = none := by
    rw [show lit "-Infinity" = cp 0x2D :: cp 0x49 :: lit "nfinity" from rfl]
    unfold dropPrefix?
    rw [if_neg]
    simp only [List.isPrefixOf_cons_cons, Bool.and_eq_true, beq_iff_eq, true_and, not_and]
    intro h
    have := congrArg Fin.val h
    rw [hv, cp_val] at this
    omega
  have hnum : parseNumber (cp 0x2D :: digitCp d :: t) = parseUnsigned true (digitCp d :: t) := by
    unfold parseNumber
    rw [hinf, show lit "NaN" = cp 0x4E :: lit "aN" from rfl,
      show lit "Infinity" = cp 0x49 :: lit "nfinity" from rfl,
      dropPrefix?_ne (by decide), dropPrefix?_ne (by decide)]
    rfl
  rw [parseValue.eq_def]
  dsimp only
  rw [if_neg (by decide), if_neg (by decide), if_neg (by decide),
    show lit "null" = cp 0x6E :: lit "ull" from rfl,
    show lit "true" = cp 0x74 :: lit "rue" from rfl,
    show lit "false" = cp 0x66 :: lit "alse" from rfl,
    dropPrefix?_ne (by decide), dropPrefix?_ne (by decide), dropPrefix?_ne (by decide), hnum]

theorem starts_digit {d : Nat} (hd : d < 10) (t : PyStr) : Starts (digitCp d :: t) := by
  have hv := digitCp_val hd
  refine ⟨_, _, rfl, ?_, by omega, by omega, by omega⟩
  unfold isJsonSpace
  simp only [Bool.or_eq_false_iff, beq_eq_false_iff_ne]
  omega

theorem starts_minus (t : PyStr) : Starts (cp 0x2D :: t) :=
  ⟨_, _, rfl, rfl, by decide, by decide, by decide⟩

/-- An integer is read back, its sign included. -/
theorem readsBack_int (n : Int) : ReadsBack (.int n) := by
  intro t ht
  rw [dumps] at ht
  split at ht
  · exact absurd ht (by simp)
  next hlen =>
  obtain rfl := Option.some.inj ht
  obtain ⟨d, u, hu, hd⟩ := natText_head n.natAbs
  unfold intText
  split
  · next hneg =>
    refine ⟨by rw [show lit "-" = [cp 0x2D] from rfl]; exact starts_minus _, ?_⟩
    intro dep rest _ hrest
    have hn : (-(n.natAbs : Int)) = n := by omega
    have hp := parseUnsigned_int true hrest (n := n.natAbs) (by omega)
    rw [hu] at hp
    rw [show lit "-" = [cp 0x2D] from rfl, List.singleton_append, List.cons_append, hu,
      List.cons_append, parseValue_minus hd, ← List.cons_append, hp, if_pos rfl, hn]
    rfl
  · next hneg =>
    refine ⟨by rw [hu]; exact starts_digit hd _, ?_⟩
    intro dep rest _ hrest
    have hn : (n.natAbs : Int) = n := by omega
    have hp := parseUnsigned_int false hrest (n := n.natAbs) (by omega)
    rw [hu] at hp ⊢
    rw [List.cons_append, parseValue_digit hd, ← List.cons_append, hp, if_neg (by simp), hn]
    rfl

/-- So is a finite float, whose text has a point or an exponent and is therefore not taken for an
integer. -/
theorem readsBack_float (neg : Bool) (mag : Magnitude) : ReadsBack (.float (.finite neg mag)) := by
  intro t ht
  rw [dumps] at ht
  obtain rfl := Option.some.inj ht
  obtain ⟨d, u, hu, hd⟩ := decimalText_head (stripZeros 20 mag.shortest)
  unfold floatText
  cases neg with
  | true =>
    rw [if_pos rfl, show lit "-" = [cp 0x2D] from rfl, List.singleton_append]
    refine ⟨starts_minus _, ?_⟩
    intro dep rest _ hrest
    have hp := parseUnsigned_floatText true mag hrest
    rw [hu] at hp ⊢
    rw [List.cons_append, List.cons_append, parseValue_minus hd, ← List.cons_append, hp]
    rfl
  | false =>
    rw [if_neg (by simp), List.nil_append]
    refine ⟨by rw [hu]; exact starts_digit hd _, ?_⟩
    intro dep rest _ hrest
    have hp := parseUnsigned_floatText false mag hrest
    rw [hu] at hp ⊢
    rw [List.cons_append, parseValue_digit hd, ← List.cons_append, hp]
    rfl

/-- A string is read back; every character in it, a lone surrogate too. -/
theorem readsBack_str (s : PyStr) : ReadsBack (.str s) := by
  intro t ht
  rw [dumps] at ht
  obtain rfl := Option.some.inj ht
  refine ⟨⟨cp 0x22, s.flatMap escapeChar ++ lit "\"", rfl, rfl, by decide, by decide, by decide⟩,
    ?_⟩
  intro dep rest _ _
  have h := parseString_stringText s rest
  show parseValue dep (cp 0x22 :: (s.flatMap escapeChar ++ lit "\"" ++ rest)) = _
  rw [parseValue.eq_def]
  dsimp only
  rw [if_pos (by decide), h]
  rfl

/-- An array is read back if its elements are: each ends where a comma or the bracket stands. -/
theorem readsBack_arr {xs : List Json} (ih : ∀ x ∈ xs, ReadsBack x) : ReadsBack (.arr xs) := by
  intro t ht
  rw [dumps] at ht
  cases hts : dumpsList xs with
  | none => simp [hts] at ht
  | some ts =>
    rw [hts] at ht
    obtain rfl := Option.some.inj ht
    obtain ⟨rfl, htext⟩ := dumpsList_eq hts
    refine ⟨⟨cp 0x5B, joinComma (xs.map textOf) ++ lit "]", rfl, rfl, by
      decide, by decide, by decide⟩, ?_⟩
    intro d rest hd hrest
    obtain ⟨d, rfl⟩ : ∃ e, d = e + 1 := ⟨d - 1, by rw [depth] at hd; omega⟩
    show parseValue (d + 1) (cp 0x5B :: (joinComma (xs.map textOf) ++ lit "]" ++ rest)) = _
    rw [parseValue.eq_def]
    dsimp only
    rw [if_neg (by decide), if_neg (by decide), if_pos (by decide), canon]
    by_cases hxs : xs = []
    · subst hxs
      rfl
    · have hx : ∀ x ∈ xs, Starts (textOf x) ∧ ∀ r, Stops r →
          parseValue d (textOf x ++ r) = .ok (canon x, r) := by
        intro x hx
        obtain ⟨h1, h2⟩ := ih x hx _ (htext x hx)
        have := depth_le_depthList hx
        rw [depth] at hd
        exact ⟨h1, fun r hr => h2 d r (by omega) hr⟩
      have hlen : xs.length ≤ (joinComma (xs.map textOf) ++ lit "]" ++ rest).length := by
        have := length_le_joinComma (xs.map textOf) (by
          intro u hu
          obtain ⟨x, hx', rfl⟩ := List.mem_map.mp hu
          exact (hx x hx').1.ne_nil)
        rw [List.length_map] at this
        rw [List.length_append, List.length_append]
        omega
      have key := @parseElems_joinComma _ rest xs _ hxs hlen hx
      obtain ⟨y, ys, rfl⟩ := List.exists_cons_of_ne_nil hxs
      obtain ⟨c, t', hc, hsp, -, h5, h7⟩ := (hx y (by simp)).1
      have hform : ∃ u, joinComma ((y :: ys).map textOf) ++ lit "]" ++ rest = c :: u := by
        by_cases hys : ys = []
        · subst hys
          exact ⟨t' ++ (lit "]" ++ rest), by
            simp only [List.map_cons, List.map_nil, joinComma, hc, List.cons_append,
              List.append_assoc]⟩
        · refine ⟨t' ++ (lit "," ++ (joinComma (ys.map textOf) ++ (lit "]" ++ rest))), ?_⟩
          rw [List.map_cons, joinComma_cons _ (by simpa using hys), hc]
          simp only [List.cons_append, List.append_assoc]
      obtain ⟨u, hu⟩ := hform
      rw [hu] at key ⊢
      unfold parseArray
      rw [show skipWs (c :: u) = c :: u by simp [skipWs, hsp]]
      dsimp only
      rw [if_neg h5, key]
      rfl

/-- An object is read back if its values are. -/
theorem readsBack_obj {m : List (PyStr × Json)} (ih : ∀ kv ∈ m, ReadsBack kv.2) :
    ReadsBack (.obj m) := by
  intro t ht
  rw [dumps] at ht
  cases hts : dumpsMembers m with
  | none => simp [hts] at ht
  | some ts =>
    rw [hts] at ht
    obtain rfl := Option.some.inj ht
    obtain ⟨rfl, htext⟩ := dumpsMembers_eq hts
    have hsort : (sortMembers (m.map fun kv => (kv.1, textOf kv.2))).map memberText
        = (sortMembers m).map memberOf := by
      rw [sortMembers_map, List.map_map]
      rfl
    dsimp only
    rw [hsort]
    refine ⟨⟨cp 0x7B, joinComma ((sortMembers m).map memberOf) ++ lit "\x7d", rfl, rfl,
      by decide, by decide, by decide⟩, ?_⟩
    intro d rest hd hrest
    obtain ⟨d, rfl⟩ : ∃ e, d = e + 1 := ⟨d - 1, by rw [depth] at hd; omega⟩
    show parseValue (d + 1) (cp 0x7B :: (joinComma ((sortMembers m).map memberOf)
      ++ lit "\x7d" ++ rest)) = _
    rw [parseValue.eq_def]
    dsimp only
    rw [if_neg (by decide), if_pos (by decide), canon, canonMembers_eq, sortMembers_map]
    have hx : ∀ kv ∈ sortMembers m, Starts (textOf kv.2) ∧ ∀ r, Stops r →
        parseValue d (textOf kv.2 ++ r) = .ok (canon kv.2, r) := by
      intro kv hkv
      have hkv' := mem_sortMembers.mp hkv
      obtain ⟨h1, h2⟩ := ih kv hkv' _ (htext kv hkv')
      have := depth_le_depthMembers hkv'
      rw [depth] at hd
      exact ⟨h1, fun r hr => h2 d r (by omega) hr⟩
    generalize sortMembers m = sm at hx ⊢
    by_cases hm : sm = []
    · subst hm
      rfl
    · have hlen : sm.length ≤ (joinComma (sm.map memberOf) ++ lit "\x7d" ++ rest).length := by
        have := length_le_joinComma (sm.map memberOf) (by
          intro u hu
          obtain ⟨kv, _, rfl⟩ := List.mem_map.mp hu
          exact (memberOf_starts kv).ne_nil)
        rw [List.length_map] at this
        rw [List.length_append, List.length_append]
        omega
      have key := @parseMembers_joinComma _ rest sm _ hm hlen hx
      obtain ⟨y, ys, rfl⟩ := List.exists_cons_of_ne_nil hm
      obtain ⟨c, t', hc, hsp, -, h5, h7⟩ := memberOf_starts y
      have hform : ∃ u, joinComma ((y :: ys).map memberOf) ++ lit "\x7d" ++ rest = c :: u := by
        by_cases hys : ys = []
        · subst hys
          exact ⟨t' ++ (lit "\x7d" ++ rest), by
            simp only [List.map_cons, List.map_nil, joinComma, hc, List.cons_append,
              List.append_assoc]⟩
        · refine ⟨t' ++ (lit "," ++ (joinComma (ys.map memberOf) ++ (lit "\x7d" ++ rest))), ?_⟩
          rw [List.map_cons, joinComma_cons _ (by simpa using hys), hc]
          simp only [List.cons_append, List.append_assoc]
      obtain ⟨u, hu⟩ := hform
      rw [hu] at key ⊢
      unfold parseObject
      rw [show skipWs (c :: u) = c :: u by simp [skipWs, hsp]]
      dsimp only
      rw [if_neg h7, key]
      rfl

mutual
/-- **Every value reads back from its canonical text.** One case for each constructor. -/
theorem readsBack : ∀ v : Json, ReadsBack v
  | .null => by
    intro t ht
    obtain rfl := Option.some.inj (ht : some (lit "null") = some t)
    exact ⟨⟨_, _, rfl, rfl, by decide, by decide, by decide⟩, fun d rest _ _ => by cases d <;> rfl⟩
  | .bool true => by
    intro t ht
    obtain rfl := Option.some.inj (ht : some (lit "true") = some t)
    exact ⟨⟨_, _, rfl, rfl, by decide, by decide, by decide⟩, fun d rest _ _ => by cases d <;> rfl⟩
  | .bool false => by
    intro t ht
    obtain rfl := Option.some.inj (ht : some (lit "false") = some t)
    exact ⟨⟨_, _, rfl, rfl, by decide, by decide, by decide⟩, fun d rest _ _ => by cases d <;> rfl⟩
  | .int n => readsBack_int n
  | .float .nan => by intro t ht; simp [dumps] at ht
  | .float (.inf _) => by intro t ht; simp [dumps] at ht
  | .float (.finite neg mag) => readsBack_float neg mag
  | .str s => readsBack_str s
  | .arr xs => readsBack_arr (readsBack_list xs)
  | .obj m => readsBack_obj (readsBack_members m)

theorem readsBack_list : ∀ (xs : List Json), ∀ x ∈ xs, ReadsBack x
  | [], _, h => absurd h (by simp)
  | y :: ys, x, h => by
    have hy := readsBack y
    have hys := readsBack_list ys x
    rcases List.mem_cons.mp h with h | h
    · exact h ▸ hy
    · exact hys h

theorem readsBack_members : ∀ (m : List (PyStr × Json)), ∀ kv ∈ m, ReadsBack kv.2
  | [], _, h => absurd h (by simp)
  | (k, v) :: m, kv, h => by
    have hv := readsBack v
    have hm := readsBack_members m kv
    rcases List.mem_cons.mp h with h | h
    · exact h ▸ hv
    · exact hm h
end

/-- Parsing the canonical text of a value gives the value with its members sorted. -/
theorem parse_dumps {v : Json} {t : PyStr} (h : dumps v = some t) {limit : Nat}
    (hd : depth v ≤ limit) : parse limit t = .ok (canon v) := by
  obtain ⟨⟨c, t', rfl, hsp, hascii, -⟩, hp⟩ := readsBack v t h
  have hp' := hp limit [] hd trivial
  rw [List.append_nil] at hp'
  unfold parse
  rw [show skipWs (c :: t') = c :: t' by simp [skipWs, hsp], hp']
  rw [if_neg]
  · rfl
  · rintro hbom
    obtain rfl := Option.some.inj (hbom : some c = some (cp 0xFEFF))
    exact absurd hascii (by decide)

/-- **The canonical form is injective**: equal bytes come from the same value,
types included, up to the order of members. -/
theorem canonicalBytes_inj {v w : Json} {b : Bytes} (hv : canonicalBytes v = some b)
    (hw : canonicalBytes w = some b) : canon v = canon w := by
  obtain ⟨s, hs, hsb⟩ := Option.bind_eq_some_iff.mp hv
  obtain ⟨t, ht, htb⟩ := Option.bind_eq_some_iff.mp hw
  obtain rfl := utf8Encode_inj hsb htb
  have h1 := parse_dumps hs (Nat.le_max_left (depth v) (depth w))
  rw [parse_dumps ht (Nat.le_max_right (depth v) (depth w))] at h1
  exact (Except.ok.inj h1).symm

end SddGov.Python
