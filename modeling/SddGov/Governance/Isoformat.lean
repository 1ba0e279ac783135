import SddGov.Governance.Host
import SddGov.Python.JsonText

/-!
# `isoformat` with microseconds

`isoformat` writes the microseconds of a time where there are some, six digits
behind a point. The text reads back as the same time (`fromisoformat_isoText`);
`stamp` is the text of a time cut to the second.
-/

namespace SddGov.Governance

open SddGov.Python

/-- A number with six digits. -/
def pad6 (n : Nat) : PyStr :=
  [digitCp (n / 100000 % 10), digitCp (n / 10000 % 10), digitCp (n / 1000 % 10),
    digitCp (n / 100 % 10),
    digitCp (n / 10 % 10), digitCp (n % 10)]

/-- The point and the microseconds, or nothing. -/
def fraction (micros : Nat) : PyStr := if micros = 0 then [] else lit "." ++ pad6 micros

/-- `value.isoformat().replace("+00:00", "Z")`. -/
def isoText (t : Instant) : PyStr := civilText t ++ fraction (t.val % 1000000) ++ lit "Z"

theorem fixedInt?_pad6 {n : Nat} (h : n < 1000000) : fixedInt? 6 (pad6 n) = some n := by
  have hv : ofDigits [n / 100000 % 10, n / 10000 % 10, n / 1000 % 10, n / 100 % 10, n / 10 % 10,
    n % 10] = n := by
    simp [ofDigits]
    omega
  unfold fixedInt? pad6
  rw [if_pos ⟨rfl, by simp [digitVal?_mod]⟩]
  simp only [List.filterMap_cons, List.filterMap_nil, digitVal?_mod, hv]

/-- A clock with a fraction is read back. -/
theorem parseClock_fraction {h m s f : Nat} (hh : h < 24) (hm : m < 60) (hs : s < 60)
    (hf : f < 1000000)
    (hne : f ≠ 0) : parseClock (pad2 h ++ lit ":" ++ pad2 m ++ lit ":" ++ pad2 s ++ fraction f)
    = some (h, m, s, f) := by
  have h1 := fixedInt?_pad2 (n := h) (by omega)
  have h2 := fixedInt?_pad2 (n := m) (by omega)
  have h3 := fixedInt?_pad2 (n := s) (by omega)
  have h4 := fixedInt?_pad6 hf
  unfold fraction
  rw [if_neg hne]
  unfold parseClock
  show ((fixedInt? 2 (pad2 h)).bind fun h' => (fixedInt? 2 (pad2 m)).bind fun m' =>
    (fixedInt? 2 (pad2 s)).bind fun s' => (fixedInt? 6 (pad6 f)).map fun f' => (h', m', s', f')) = _
  rw [h1, h2, h3, h4]
  rfl

/-- The clock reads back with its microseconds. -/
theorem parseClock_isoText {h m s f : Nat} (hh : h < 24) (hm : m < 60) (hs : s < 60)
    (hf : f < 1000000) :
    parseClock (pad2 h ++ lit ":" ++ pad2 m ++ lit ":" ++ pad2 s ++ fraction f)
    = some (h, m, s, f) := by
  by_cases hzero : f = 0
  · subst hzero
    have hclock := parseClock_pad hh hm hs
    rwa [show fraction 0 = [] from rfl, List.append_nil]
  · exact parseClock_fraction hh hm hs hf hzero

/-- A clock has no sign, so the offset begins at the sign that follows it. -/
theorem clockText_noSign (h m s f : Nat) :
    ∀ c ∈ pad2 h ++ lit ":" ++ pad2 m ++ lit ":" ++ pad2 s ++ fraction f, (!isSign c) = true := by
  have hdigit : ∀ n, (!isSign (digitCp (n % 10))) = true := fun n => by
    rw [isSign_digitCp (by omega)]; rfl
  have hpad2 : ∀ n, ∀ c ∈ pad2 n, (!isSign c) = true := by
    intro n c hc
    simp only [pad2, List.mem_cons, List.not_mem_nil, or_false] at hc
    rcases hc with rfl | rfl <;> exact hdigit _
  have hmark : ∀ c ∈ lit ":", (!isSign c) = true := by
    intro c hc
    obtain rfl := List.mem_singleton.mp hc
    rfl
  have hfraction : ∀ c ∈ fraction f, (!isSign c) = true := by
    intro c hc
    unfold fraction at hc
    split at hc
    · cases hc
    · rcases List.mem_append.mp hc with hc | hc
      · obtain rfl := List.mem_singleton.mp hc
        rfl
      · simp only [pad6, List.mem_cons, List.not_mem_nil, or_false] at hc
        rcases hc with rfl | rfl | rfl | rfl | rfl | rfl <;> exact hdigit _
  simp only [List.forall_mem_append]
  exact ⟨⟨⟨⟨⟨hpad2 h, hmark⟩, hpad2 m⟩, hmark⟩, hpad2 s⟩, hfraction⟩

/-- A time of the day with its offset is read back. -/
theorem parseTime_isoText {h m s f : Nat} (hh : h < 24) (hm : m < 60) (hs : s < 60)
    (hf : f < 1000000) :
    parseTime (pad2 h ++ lit ":" ++ pad2 m ++ lit ":" ++ pad2 s ++ fraction f ++ lit "+00:00")
      = some (((h * 60 + m) * 60 + s) * 1000000 + f, some 0) := by
  have hsign := clockText_noSign h m s f
  have hclock := parseClock_isoText hh hm hs hf
  generalize pad2 h ++ lit ":" ++ pad2 m ++ lit ":" ++ pad2 s ++ fraction f = text at hsign hclock ⊢
  have htake : (text ++ lit "+00:00").takeWhile (fun c => !isSign c) = text := by
    rw [List.takeWhile_append_of_pos hsign]
    exact List.append_nil _
  have hdrop : (text ++ lit "+00:00").dropWhile (fun c => !isSign c) = lit "+00:00" := by
    rw [List.dropWhile_append_of_pos hsign]
    rfl
  unfold parseTime
  rw [htake, hdrop, hclock]
  have hoff : parseOffset false (lit "00:00") = some 0 := by decide
  show (if 24 ≤ h ∨ 60 ≤ m ∨ 60 ≤ s then none
    else (parseOffset false (lit "00:00")).map fun d => _) = _
  rw [if_neg (by omega), hoff, Option.map_some]

theorem ofInt?_val (t : Instant) : Instant.ofInt? (t.val : Int) = some t := by
  have hlt := t.isLt
  unfold Instant.ofInt?
  simp [hlt]

/-- The text reads back as its time. -/
theorem fromisoformat_isoText (t : Instant) :
    fromisoformat (replaceZulu (isoText t)) = some ⟨t.val, some 0⟩ := by
  have hday : t.val / microsPerDay < 3652059 := by
    have hlt := t.isLt
    unfold instantEnd at hlt
    unfold microsPerDay
    omega
  obtain ⟨hy1, hy2, hm1, hm2, hd1, hd2⟩ := ord2ymd_valid hday
  have hdate := parseDate_pad ⟨hy1, hy2⟩ ⟨hm1, hm2⟩ ⟨hd1, hd2⟩
  rw [ymd2ord_ord2ymd] at hdate
  have htime := parseTime_isoText (h := t.val / 1000000 % 86400 / 3600)
    (m := t.val / 1000000 % 86400 / 60 % 60)
    (s := t.val / 1000000 % 86400 % 60) (f := t.val % 1000000) (by omega) (by omega) (by omega)
    (Nat.mod_lt _ (by decide))
  have hsum : t.val / microsPerDay * microsPerDay + (((t.val / 1000000 % 86400 / 3600 * 60
      + t.val / 1000000 % 86400 / 60 % 60) * 60 + t.val / 1000000 % 86400 % 60) * 1000000
        + t.val % 1000000)
      = t.val := by
    unfold microsPerDay
    omega
  have hzulu : replaceZulu (isoText t)
      = civilText t ++ fraction (t.val % 1000000) ++ lit "+00:00" := by
    have hfraction : ∀ c ∈ fraction (t.val % 1000000), c ≠ cp 0x5A := by
      intro c hc
      unfold fraction at hc
      split at hc
      · cases hc
      · rcases List.mem_append.mp hc with hc | hc
        · obtain rfl := List.mem_singleton.mp hc
          decide
        · simp only [pad6, List.mem_cons, List.not_mem_nil, or_false] at hc
          rcases hc with rfl | rfl | rfl | rfl | rfl | rfl <;> exact digitCp_ne_zulu (by omega)
    have hz : replaceZulu (lit "Z") = lit "+00:00" := by decide
    unfold isoText
    rw [replaceZulu_append, replaceZulu_append,
      replaceZulu_eq_self (civilText_no_zulu t), replaceZulu_eq_self hfraction, hz]
  have htext : civilText t ++ fraction (t.val % 1000000) ++ lit "+00:00"
      = (pad4 (ord2ymd (t.val / microsPerDay)).1 ++ lit "-"
        ++ pad2 (ord2ymd (t.val / microsPerDay)).2.1
          ++ lit "-" ++ pad2 (ord2ymd (t.val / microsPerDay)).2.2)
        ++ cp 0x54 :: (pad2 (t.val / 1000000 % 86400 / 3600) ++ lit ":"
          ++ pad2 (t.val / 1000000 % 86400 / 60 % 60) ++ lit ":"
          ++ pad2 (t.val / 1000000 % 86400 % 60) ++ fraction (t.val % 1000000)
            ++ lit "+00:00") := by
    unfold civilText
    simp only [List.append_assoc]
    rfl
  rw [hzulu, htext, fromisoformat_append _ rfl, hdate, htime]
  show some (Parsed.mk (t.val / microsPerDay * microsPerDay + _) (some 0)) = _
  rw [hsum]

theorem plain_digit (n : Nat) : Plain [digitCp (n % 10)] := by
  intro c hc
  obtain rfl := List.mem_singleton.mp hc
  rw [digitCp_val (Nat.mod_lt _ (by decide))]
  omega

theorem plain_civilText (t : Instant) : Plain (civilText t) := by
  have hpad2 : ∀ n : Nat, Plain (pad2 n) := fun n => (plain_digit (n / 10)).append (plain_digit n)
  have hpad4 : ∀ n : Nat, Plain (pad4 n) := fun n =>
    (plain_digit (n / 1000)).append
      ((plain_digit (n / 100)).append ((plain_digit (n / 10)).append (plain_digit n)))
  unfold civilText
  refine Plain.append
    (Plain.append
    (Plain.append (Plain.append (Plain.append (Plain.append (Plain.append (Plain.append
    (Plain.append (Plain.append (hpad4 _) ?_) (hpad2 _)) ?_) (hpad2 _)) ?_) (hpad2 _)) ?_)
      (hpad2 _)) ?_) (hpad2 _)
  all_goals exact plain_lit (by decide)

theorem plain_stamp (t : Instant) : Plain (stamp t) :=
    (plain_civilText t).append (plain_lit (by decide))

theorem plain_isoText (t : Instant) : Plain (isoText t) := by
  have hfraction : Plain (fraction (t.val % 1000000)) := by
    unfold fraction
    split
    · exact fun c hc => absurd hc (by simp)
    · refine (plain_lit (by decide)).append ?_
      exact (plain_digit _).append ((plain_digit _).append
        ((plain_digit _).append ((plain_digit _).append
        ((plain_digit _).append (plain_digit _)))))
  exact ((plain_civilText t).append hfraction).append (plain_lit (by decide))

end SddGov.Governance
