import SddGov.Python.Exn

/-!
# `datetime`: instants, `isoformat` and `fromisoformat`

An aware `datetime` is used here for the instant it names, so an `Instant` is
the number of microseconds since the first day of year 1, and carries the
range of `datetime` with it. Its text goes through the calendar:
`ord2ymd` splits a day number into year, month and day, `ymd2ord` puts them
together again (`ymd2ord_ord2ymd`).

`fromisoformat` is the documented grammar
`YYYY-MM-DD[*HH[:MM[:SS[.fff[fff]]]][+HH:MM[:SS[.ffffff]]]]`. The fact the
programs rely on is `fromisoformat_stamp`: a stamp, its `Z` replaced by the
offset, reads back as the instant it was taken from, cut to the second.
-/

namespace SddGov.Python

/-! ## The calendar -/

def isLeap (y : Nat) : Bool := y % 4 == 0 && (y % 100 != 0 || y % 400 == 0)

/-- Days before January 1st of year `y`, counted from year 1. -/
def daysBeforeYear (y : Nat) : Nat :=
  (y - 1) * 365 + (y - 1) / 4 - (y - 1) / 100 + (y - 1) / 400

/-- The lengths of the twelve months. -/
def monthLengths (leap : Bool) : List Nat :=
  [31, if leap then 29 else 28, 31, 30, 31, 30, 31, 31, 30, 31, 30, 31]

def daysInMonth (y m : Nat) : Nat := (monthLengths (isLeap y)).getD (m - 1) 0

/-- Days before the first of month `m`. -/
def daysBeforeMonth (y m : Nat) : Nat := ((monthLengths (isLeap y)).take (m - 1)).sum

/-- The day number of a date; January 1st of year 1 is 0. -/
def ymd2ord (y m d : Nat) : Nat := daysBeforeYear y + daysBeforeMonth y m + (d - 1)

/-- The month and day of the `n`-th day of a year with these month lengths. -/
def monthDay : List Nat → Nat → Nat × Nat
  | [], n => (1, n + 1)
  | len :: rest, n =>
    if n < len then (1, n + 1) else ((monthDay rest (n - len)).1 + 1, (monthDay rest (n - len)).2)

/-- The year of a day number and the day within that year. -/
def ord2year (n : Nat) : Nat × Nat :=
  let n400 := n / 146097
  let r400 := n % 146097
  let n100 := r400 / 36524
  let r100 := r400 % 36524
  let n4 := r100 / 1461
  let r4 := r100 % 1461
  let n1 := r4 / 365
  let r1 := r4 % 365
  let y := n400 * 400 + n100 * 100 + n4 * 4 + n1 + 1
  -- the last day of a leap cycle is December 31st of the year before
  if n1 = 4 ∨ n100 = 4 then (y - 1, 365) else (y, r1)

/-- Year, month and day of a day number. -/
def ord2ymd (n : Nat) : Nat × Nat × Nat :=
  let y := (ord2year n).1
  (y, monthDay (monthLengths (isLeap y)) (ord2year n).2)

def yearLength (y : Nat) : Nat := if isLeap y then 366 else 365

theorem isLeap_iff (y : Nat) :
    isLeap y = true ↔ y % 4 = 0 ∧ (y % 100 ≠ 0 ∨ y % 400 = 0) := by
  simp [isLeap]

/-- The days before a year, from its place in the 400-, 100- and 4-year cycles. -/
theorem daysBeforeYear_cycles (a : Nat) {b c d : Nat} (hb : b ≤ 3) (hc : c ≤ 24) (hd : d ≤ 3) :
    daysBeforeYear (a * 400 + b * 100 + c * 4 + d + 1) = a * 146097 + b * 36524 + c * 1461 + d * 365
      ∧ (isLeap (a * 400 + b * 100 + c * 4 + d + 1) = true ↔ d = 3 ∧ (c = 24 → b = 3)) := by
  have h4 : (a * 400 + b * 100 + c * 4 + d) / 4 = a * 100 + b * 25 + c := by omega
  have h100 : (a * 400 + b * 100 + c * 4 + d) / 100 = a * 4 + b := by omega
  have h400 : (a * 400 + b * 100 + c * 4 + d) / 400 = a := by omega
  constructor
  · unfold daysBeforeYear
    rw [Nat.add_sub_cancel, h4, h100, h400]
    omega
  · rw [isLeap_iff]
    omega

/-- The year of an ordinal and the day in it give the ordinal back. The division goes by the cycles
of 400, 100, 4 and 1 years, as in the source. -/
theorem ord2year_spec (n : Nat) :
    1 ≤ (ord2year n).1 ∧ (ord2year n).2 < yearLength (ord2year n).1
      ∧ daysBeforeYear (ord2year n).1 + (ord2year n).2 = n := by
  unfold ord2year yearLength
  dsimp only
  have ha := Nat.div_add_mod n 146097
  have hb := Nat.div_add_mod (n % 146097) 36524
  have hc := Nat.div_add_mod (n % 146097 % 36524) 1461
  have hd := Nat.div_add_mod (n % 146097 % 36524 % 1461) 365
  have ha' := Nat.mod_lt n (show 0 < 146097 by decide)
  have hb' := Nat.mod_lt (n % 146097) (show 0 < 36524 by decide)
  have hc' := Nat.mod_lt (n % 146097 % 36524) (show 0 < 1461 by decide)
  have hd' := Nat.mod_lt (n % 146097 % 36524 % 1461) (show 0 < 365 by decide)
  split
  · next h =>
    dsimp only
    generalize n / 146097 = a at *
    generalize n % 146097 = r400 at *
    generalize r400 / 36524 = b at *
    generalize r400 % 36524 = r100 at *
    generalize r100 / 1461 = c at *
    generalize r100 % 1461 = r4 at *
    generalize r4 / 365 = d at *
    generalize r4 % 365 = r1 at *
    rcases h with h4 | h4
    · -- December 31st of a leap year inside a century
      subst h4
      obtain ⟨h1, h2⟩ := daysBeforeYear_cycles a (b := b) (c := c) (d := 3) (by omega) (by omega)
        (by omega)
      rw [show a * 400 + b * 100 + c * 4 + 4 + 1 - 1 = a * 400 + b * 100 + c * 4 + 3 + 1 by omega,
        h1, if_pos (h2.mpr ⟨rfl, by omega⟩)]
      omega
    · -- December 31st of the 400th year
      subst h4
      obtain ⟨h1, h2⟩ := daysBeforeYear_cycles a (b := 3) (c := 24) (d := 3) (by omega) (by omega)
        (by omega)
      rw [show a * 400 + 4 * 100 + c * 4 + d + 1 - 1 = a * 400 + 3 * 100 + 24 * 4 + 3 + 1 by omega,
        h1, if_pos (h2.mpr ⟨rfl, fun _ => rfl⟩)]
      omega
  · next h =>
    dsimp only
    generalize n / 146097 = a at *
    generalize n % 146097 = r400 at *
    generalize r400 / 36524 = b at *
    generalize r400 % 36524 = r100 at *
    generalize r100 / 1461 = c at *
    generalize r100 % 1461 = r4 at *
    generalize r4 / 365 = d at *
    generalize r4 % 365 = r1 at *
    obtain ⟨h1, -⟩ := daysBeforeYear_cycles a (b := b) (c := c) (d := d) (by omega) (by omega)
      (by omega)
    rw [h1]
    refine ⟨by omega, ?_, by omega⟩
    split <;> omega

theorem ord2year_lt {n : Nat} (h : n < 3652059) : (ord2year n).1 ≤ 9999 := by
  unfold ord2year
  dsimp only
  split <;> dsimp only <;> omega

/-- The month and the day give the day of the year back; the induction is on the lengths of the
months. -/
theorem monthDay_spec (lens : List Nat) (n : Nat) (h : n < lens.sum) :
    1 ≤ (monthDay lens n).1 ∧ (monthDay lens n).1 ≤ lens.length ∧ 1 ≤ (monthDay lens n).2
      ∧ (monthDay lens n).2 ≤ lens.getD ((monthDay lens n).1 - 1) 0
      ∧ (lens.take ((monthDay lens n).1 - 1)).sum + ((monthDay lens n).2 - 1) = n := by
  induction lens generalizing n with
  | nil => exact absurd h (by simp)
  | cons len rest ih =>
    rw [monthDay]
    split
    · next hlt => simpa using hlt
    · next hge =>
      have hn : n - len < rest.sum := by
        rw [List.sum_cons] at h
        omega
      obtain ⟨h1, h2, h3, h4, h5⟩ := ih (n - len) hn
      dsimp only
      generalize hm : (monthDay rest (n - len)).1 = m at h1 h2 h4 h5 ⊢
      obtain ⟨k, rfl⟩ : ∃ k, m = k + 1 := ⟨m - 1, by omega⟩
      refine ⟨by omega, by simpa using h2, h3, by simpa using h4, ?_⟩
      simp only [Nat.add_sub_cancel, List.take_succ_cons, List.sum_cons] at h5 ⊢
      omega

theorem sum_monthLengths (y : Nat) : (monthLengths (isLeap y)).sum = yearLength y := by
  unfold yearLength
  cases isLeap y <;> rfl

theorem monthLengths_le {b : Bool} {m : Nat} : (monthLengths b).getD m 0 ≤ 31 := by
  cases b <;> (rcases m with _ | _ | _ | _ | _ | _ | _ | _ | _ | _ | _ | _ | m
    <;> simp [monthLengths])

/-- The calendar date of a day number is a valid date. -/
theorem ord2ymd_valid {n : Nat} (h : n < 3652059) :
    1 ≤ (ord2ymd n).1 ∧ (ord2ymd n).1 ≤ 9999 ∧ 1 ≤ (ord2ymd n).2.1 ∧ (ord2ymd n).2.1 ≤ 12
      ∧ 1 ≤ (ord2ymd n).2.2 ∧ (ord2ymd n).2.2 ≤ daysInMonth (ord2ymd n).1 (ord2ymd n).2.1 := by
  obtain ⟨h1, h2, -⟩ := ord2year_spec n
  rw [← sum_monthLengths] at h2
  obtain ⟨m1, m2, m3, m4, -⟩ := monthDay_spec _ _ h2
  exact ⟨h1, ord2year_lt h, m1, m2, m3, m4⟩

/-- Splitting a day number and putting it together again. -/
theorem ymd2ord_ord2ymd (n : Nat) :
    ymd2ord (ord2ymd n).1 (ord2ymd n).2.1 (ord2ymd n).2.2 = n := by
  obtain ⟨h1, h2, h3⟩ := ord2year_spec n
  rw [← sum_monthLengths] at h2
  obtain ⟨-, -, -, -, m5⟩ := monthDay_spec _ _ h2
  unfold ymd2ord daysBeforeMonth ord2ymd
  dsimp only
  omega

/-! ## Instants -/

def microsPerDay : Nat := 86400000000

/-- The microseconds `datetime` spans, from year 1 to the end of year 9999. -/
def instantEnd : Nat := 3652059 * 86400000000

/-- The instants `datetime` can name, in microseconds since the first day of year 1. -/
structure Instant where
  val : Nat
  isLt : val < instantEnd
  deriving DecidableEq

theorem sampleMicros_lt : 63000000000000000 < instantEnd := by decide

/-- `value.replace(microsecond=0)`. -/
def Instant.second (t : Instant) : Instant :=
  ⟨t.val / 1000000 * 1000000, Nat.lt_of_le_of_lt (Nat.div_mul_le_self ..) t.isLt⟩

/-- `timedelta(...)` in microseconds. -/
abbrev TimeDelta := Int

def seconds (n : Int) : TimeDelta := n * 1000000

def minutes (n : Int) : TimeDelta := n * 60000000

def hours (n : Int) : TimeDelta := n * 3600000000

def days (n : Int) : TimeDelta := n * 86400000000

/-- The instant with this number of microseconds; `none` is an `OverflowError`. -/
def Instant.ofInt? (n : Int) : Option Instant :=
  if h : 0 ≤ n ∧ n.toNat < instantEnd then some ⟨n.toNat, h.2⟩ else none

/-- `value + delta`. -/
def Instant.add? (t : Instant) (d : TimeDelta) : Option Instant := Instant.ofInt? (t.val + d)

/-! ## Text -/

/-- A number with at least two digits. -/
def pad2 (n : Nat) : PyStr := [digitCp (n / 10 % 10), digitCp (n % 10)]

/-- A number with four digits. -/
def pad4 (n : Nat) : PyStr :=
  [digitCp (n / 1000 % 10), digitCp (n / 100 % 10), digitCp (n / 10 % 10), digitCp (n % 10)]

/-- Date and time of a whole second, `YYYY-MM-DDTHH:MM:SS`. -/
def civilText (t : Instant) : PyStr :=
  let ymd := ord2ymd (t.val / microsPerDay)
  let sec := t.val / 1000000 % 86400
  pad4 ymd.1 ++ lit "-" ++ pad2 ymd.2.1 ++ lit "-" ++ pad2 ymd.2.2 ++ lit "T"
    ++ pad2 (sec / 3600) ++ lit ":" ++ pad2 (sec / 60 % 60) ++ lit ":" ++ pad2 (sec % 60)

/-- `value.replace(microsecond=0).isoformat().replace("+00:00", "Z")`. -/
def stamp (t : Instant) : PyStr := civilText t ++ lit "Z"

/-- A stamp is not blank. -/
theorem text?_stamp (t : Instant) : (text? (.str (stamp t))).isSome = true := by
  have hz : isBlank (stamp t) = false := by
    unfold isBlank stamp
    rw [List.all_append, show (lit "Z").all isSpace = false by decide, Bool.and_false]
  simp [text?, hz]

/-! ## `fromisoformat` -/

/-- What `fromisoformat` returns: the naive time in microseconds and the offset. -/
structure Parsed where
  naive : Nat
  offset : Option TimeDelta
  deriving DecidableEq

/-- `int(text)` of exactly `n` ASCII digits. -/
def fixedInt? (n : Nat) (s : PyStr) : Option Nat :=
  if s.length = n ∧ s.all (fun c => (digitVal? c).isSome) then
    some (ofDigits (s.filterMap digitVal?))
  else none

/-- `HH[:MM[:SS[.fff[fff]]]]` as hours, minutes, seconds and microseconds. -/
def parseClock (s : PyStr) : Option (Nat × Nat × Nat × Nat) := do
  let hh ← fixedInt? 2 (s.take 2)
  match s.drop 2 with
  | [] => pure (hh, 0, 0, 0)
  | c :: s =>
    if c.val ≠ 0x3A then none
    else
      let mm ← fixedInt? 2 (s.take 2)
      match s.drop 2 with
      | [] => pure (hh, mm, 0, 0)
      | c :: s =>
        if c.val ≠ 0x3A then none
        else
          let ss ← fixedInt? 2 (s.take 2)
          match s.drop 2 with
          | [] => pure (hh, mm, ss, 0)
          | c :: s =>
            if c.val ≠ 0x2E then none
            else if s.length = 3 then
              (fixedInt? 3 s).map fun f => (hh, mm, ss, f * 1000)
            else (fixedInt? 6 s).map fun f => (hh, mm, ss, f)

/-- The offset after its sign: `HH:MM[:SS[.ffffff]]`, less than a day. -/
def parseOffset (neg : Bool) (s : PyStr) : Option TimeDelta :=
  if s.length ≠ 5 ∧ s.length ≠ 8 ∧ s.length ≠ 15 then none
  else
    (parseClock s).bind fun (hh, mm, ss, f) =>
      let d : TimeDelta := hours hh + minutes mm + seconds ss + f
      if d < days 1 then some (if neg then -d else d) else none

/-- A sign of an offset. -/
def isSign (c : CodePoint) : Bool := c.val == 0x2B || c.val == 0x2D

/-- Microseconds of the day and the offset. -/
def parseTime (s : PyStr) : Option (Nat × Option TimeDelta) := do
  let (hh, mm, ss, f) ← parseClock (s.takeWhile fun c => !isSign c)
  if 24 ≤ hh ∨ 60 ≤ mm ∨ 60 ≤ ss then none
  else
    let micros := ((hh * 60 + mm) * 60 + ss) * 1000000 + f
    match s.dropWhile fun c => !isSign c with
    | [] => pure (micros, none)
    | c :: tz => (parseOffset (c.val == 0x2D) tz).map fun d => (micros, some d)

/-- The day number of `YYYY-MM-DD`. -/
def parseDate (s : PyStr) : Option Nat := do
  let y ← fixedInt? 4 (s.take 4)
  let m ← fixedInt? 2 ((s.drop 5).take 2)
  let d ← fixedInt? 2 ((s.drop 8).take 2)
  if (s.drop 4).head? = some (cp 0x2D) ∧ (s.drop 7).head? = some (cp 0x2D) ∧ s.length = 10
      ∧ 1 ≤ y ∧ 1 ≤ m ∧ m ≤ 12 ∧ 1 ≤ d ∧ d ≤ daysInMonth y m then
    some (ymd2ord y m d)
  else none

/-- `datetime.fromisoformat(text)`; `none` is its `ValueError`. -/
def fromisoformat (s : PyStr) : Option Parsed := do
  let day ← parseDate (s.take 10)
  match s.drop 10 with
  | [] => pure ⟨day * microsPerDay, none⟩
  | _ :: time =>
    let (micros, off) ← parseTime time
    pure ⟨day * microsPerDay + micros, off⟩

/-- The microseconds of an aware time. -/
def Parsed.micros (p : Parsed) (off : TimeDelta) : Int := p.naive - off

/-! ## A stamp reads back -/

theorem digitVal?_mod (n : Nat) : digitVal? (digitCp (n % 10)) = some (n % 10) := by
  have hv : (digitCp (n % 10)).val = 0x30 + n % 10 := by
    simp [digitCp]
    omega
  unfold digitVal?
  rw [hv, if_pos (by omega)]
  simp

theorem fixedInt?_pad2 {n : Nat} (h : n < 100) : fixedInt? 2 (pad2 n) = some n := by
  have hv : ofDigits [n / 10 % 10, n % 10] = n := by
    simp [ofDigits]
    omega
  unfold fixedInt? pad2
  rw [if_pos ⟨rfl, by simp [digitVal?_mod]⟩]
  simp only [List.filterMap_cons, List.filterMap_nil, digitVal?_mod, hv]

theorem fixedInt?_pad4 {n : Nat} (h : n < 10000) : fixedInt? 4 (pad4 n) = some n := by
  have hv : ofDigits [n / 1000 % 10, n / 100 % 10, n / 10 % 10, n % 10] = n := by
    simp [ofDigits]
    omega
  unfold fixedInt? pad4
  rw [if_pos ⟨rfl, by simp [digitVal?_mod]⟩]
  simp only [List.filterMap_cons, List.filterMap_nil, digitVal?_mod, hv]

/-- A date is read back. -/
theorem parseDate_pad {y m d : Nat} (hy : 1 ≤ y ∧ y ≤ 9999) (hm : 1 ≤ m ∧ m ≤ 12)
    (hd : 1 ≤ d ∧ d ≤ daysInMonth y m) :
    parseDate (pad4 y ++ lit "-" ++ pad2 m ++ lit "-" ++ pad2 d) = some (ymd2ord y m d) := by
  have hd31 : daysInMonth y m ≤ 31 := monthLengths_le
  have h4 := fixedInt?_pad4 (n := y) (by omega)
  have hm2 := fixedInt?_pad2 (n := m) (by omega)
  have hd2 := fixedInt?_pad2 (n := d) (by omega)
  have hc : 1 ≤ y ∧ 1 ≤ m ∧ m ≤ 12 ∧ 1 ≤ d ∧ d ≤ daysInMonth y m := ⟨hy.1, hm.1, hm.2, hd⟩
  unfold parseDate
  show ((fixedInt? 4 (pad4 y)).bind fun y' => (fixedInt? 2 (pad2 m)).bind fun m' =>
    (fixedInt? 2 (pad2 d)).bind fun d' => _) = _
  rw [h4, hm2, hd2]
  exact if_pos ⟨rfl, rfl, rfl, hc⟩

theorem isSign_digitCp {d : Nat} (h : d < 10) : isSign (digitCp d) = false := by
  unfold isSign digitCp
  simp
  omega

theorem parseClock_pad {h m s : Nat} (hh : h < 24) (hm : m < 60) (hs : s < 60) :
    parseClock (pad2 h ++ lit ":" ++ pad2 m ++ lit ":" ++ pad2 s) = some (h, m, s, 0) := by
  have h1 := fixedInt?_pad2 (n := h) (by omega)
  have h2 := fixedInt?_pad2 (n := m) (by omega)
  have h3 := fixedInt?_pad2 (n := s) (by omega)
  unfold parseClock
  show ((fixedInt? 2 (pad2 h)).bind fun h' => (fixedInt? 2 (pad2 m)).bind fun m' =>
    (fixedInt? 2 (pad2 s)).bind fun s' => some (h', m', s', 0)) = _
  rw [h1, h2, h3]
  rfl

/-- A time of the day written with two digits each is read back. -/
theorem parseTime_pad {h m s : Nat} (hh : h < 24) (hm : m < 60) (hs : s < 60) :
    parseTime (pad2 h ++ lit ":" ++ pad2 m ++ lit ":" ++ pad2 s ++ lit "+00:00")
      = some (((h * 60 + m) * 60 + s) * 1000000, some 0) := by
  have hns : ∀ n, isSign (digitCp (n % 10)) = false := fun n => isSign_digitCp (by omega)
  have hc : isSign (cp 0x3A) = false := rfl
  have hp : isSign (cp 0x2B) = true := rfl
  have htake : (pad2 h ++ lit ":" ++ pad2 m ++ lit ":" ++ pad2 s ++ lit "+00:00").takeWhile
      (fun c => !isSign c) = pad2 h ++ lit ":" ++ pad2 m ++ lit ":" ++ pad2 s := by
    rw [show lit ":" = [cp 0x3A] from rfl, show lit "+00:00" = cp 0x2B :: lit "00:00" from rfl]
    simp only [pad2, List.cons_append, List.nil_append, List.takeWhile_cons, hns, hc, hp,
      Bool.not_false, Bool.not_true, if_true]
    rfl
  have hdrop : (pad2 h ++ lit ":" ++ pad2 m ++ lit ":" ++ pad2 s ++ lit "+00:00").dropWhile
      (fun c => !isSign c) = lit "+00:00" := by
    rw [show lit ":" = [cp 0x3A] from rfl, show lit "+00:00" = cp 0x2B :: lit "00:00" from rfl]
    simp only [pad2, List.cons_append, List.nil_append, List.dropWhile_cons, hns, hc, hp,
      Bool.not_false, Bool.not_true, if_true]
    rfl
  unfold parseTime
  rw [htake, hdrop, parseClock_pad hh hm hs]
  have hoff : parseOffset false (lit "00:00") = some 0 := by decide
  show (if 24 ≤ h ∨ 60 ≤ m ∨ 60 ≤ s then none
    else (parseOffset false (lit "00:00")).map fun d => _) = _
  rw [if_neg (by omega), hoff, Option.map_some, Nat.add_zero]

theorem fromisoformat_append {date time : PyStr} (c : CodePoint) (h : date.length = 10) :
    fromisoformat (date ++ c :: time) = (parseDate date).bind fun day =>
      (parseTime time).bind fun x => some ⟨day * microsPerDay + x.1, x.2⟩ := by
  unfold fromisoformat
  rw [List.take_left' h, List.drop_left' h]
  rfl

/-- **A stamp reads back** as its instant cut to the second. -/
theorem fromisoformat_stamp (t : Instant) :
    fromisoformat (civilText t ++ lit "+00:00") = some ⟨t.second.val, some 0⟩ := by
  have hday : t.val / microsPerDay < 3652059 := by
    have := t.isLt
    unfold instantEnd at this
    unfold microsPerDay
    omega
  obtain ⟨hy1, hy2, hm1, hm2, hd1, hd2⟩ := ord2ymd_valid hday
  have hdate := parseDate_pad ⟨hy1, hy2⟩ ⟨hm1, hm2⟩ ⟨hd1, hd2⟩
  rw [ymd2ord_ord2ymd] at hdate
  have htime := parseTime_pad (h := t.val / 1000000 % 86400 / 3600)
    (m := t.val / 1000000 % 86400 / 60 % 60) (s := t.val / 1000000 % 86400 % 60)
    (by omega) (by omega) (by omega)
  have hsum : t.val / microsPerDay * microsPerDay + ((t.val / 1000000 % 86400 / 3600 * 60
      + t.val / 1000000 % 86400 / 60 % 60) * 60 + t.val / 1000000 % 86400 % 60) * 1000000
      = t.second.val := by
    unfold microsPerDay Instant.second
    dsimp only
    omega
  have htext : civilText t ++ lit "+00:00"
      = (pad4 (ord2ymd (t.val / microsPerDay)).1 ++ lit "-"
        ++ pad2 (ord2ymd (t.val / microsPerDay)).2.1
          ++ lit "-" ++ pad2 (ord2ymd (t.val / microsPerDay)).2.2)
        ++ cp 0x54 :: (pad2 (t.val / 1000000 % 86400 / 3600) ++ lit ":"
          ++ pad2 (t.val / 1000000 % 86400 / 60 % 60) ++ lit ":"
          ++ pad2 (t.val / 1000000 % 86400 % 60) ++ lit "+00:00") := by
    unfold civilText
    simp only [List.append_assoc]
    rfl
  rw [htext, fromisoformat_append _ rfl, hdate, htime, ← hsum]
  rfl

end SddGov.Python
