import SddGov.Python.DecimalNumber
import SddGov.Python.JsonSpaced

/-!
# Where a JSON text breaks a line

Every control character is escaped, so of the characters that `str.splitlines`
breaks a line at only three stay as they are. The text of a value holds one of
them just where a name or a string of the value does (`breaksIf_dumpsSpaced`).
-/

namespace SddGov.Python

/-- The characters that break a line and are written as they are: next line, line separator and
paragraph separator. -/
def isSeparator (c : CodePoint) : Bool := c.val == 0x85 || c.val == 0x2028 || c.val == 0x2029

mutual
/-- Some text of the value, a name or a string at any depth, holds a separator. -/
def holdsSeparator : Json → Bool
  | .str s => s.any isSeparator
  | .arr xs => holdsSeparatorList xs
  | .obj m => holdsSeparatorMembers m
  | _ => false

def holdsSeparatorList : List Json → Bool
  | [] => false
  | x :: xs => holdsSeparator x || holdsSeparatorList xs

def holdsSeparatorMembers : List (PyStr × Json) → Bool
  | [] => false
  | (k, v) :: rest => k.any isSeparator || holdsSeparator v || holdsSeparatorMembers rest
end

/-- A text without control characters that breaks a line or does not. -/
def BreaksIf (b : Bool) (t : PyStr) : Prop := NoControl t ∧ t.any isLineBreak = b

theorem BreaksIf.append {a b : Bool} {t u : PyStr} (ht : BreaksIf a t) (hu : BreaksIf b u) :
    BreaksIf (a || b) (t ++ u) :=
  ⟨ht.1.append hu.1, by rw [List.any_append, ht.2, hu.2]⟩

theorem isLineBreak_eq_isSeparator {c : CodePoint} (h : 0x20 ≤ c.val) :
    isLineBreak c = isSeparator c := by
  unfold isLineBreak isSeparator
  rw [Bool.eq_iff_iff]
  simp only [Bool.or_eq_true, Bool.and_eq_true, decide_eq_true_eq, beq_iff_eq]
  omega

theorem breaksIf_plain {t : PyStr} (h : Plain t) : BreaksIf false t := by
  refine ⟨h.noControl, List.any_eq_false.mpr fun c hc => ?_⟩
  have hplain := h c hc
  rw [isLineBreak_eq_isSeparator hplain.1]
  simp only [isSeparator, Bool.or_eq_true, beq_iff_eq]
  omega

theorem breaksIf_lit {s : String} (h : (lit s).all (fun c => 0x20 ≤ c.val && c.val < 0x80) = true) :
    BreaksIf false (lit s) := breaksIf_plain (plain_lit h)

/-- An ASCII character is escaped in plain characters. -/
theorem plain_escapeChar {c : CodePoint} (hc : c.val < 0x80) : Plain (escapeChar c) := by
  intro d hd
  refine ⟨noControl_escapeChar c d hd, ?_⟩
  by_cases hlow : 0x20 ≤ c.val
  · rcases ((escapeChar_spec hlow).2 d hd).2 with rfl | hsmall
    · exact hc
    · exact hsmall
  · have hcontrol : ∀ n < 0x20, (escapeChar (cp n)).all (fun d => d.val < 0x80) = true := by decide
    have hself : cp c.val = c := Fin.ext (by rw [cp_val, Nat.mod_eq_of_lt c.isLt])
    have hall := hcontrol c.val (by omega)
    rw [hself] at hall
    simpa using List.all_eq_true.mp hall d hd

/-- A character is escaped or written as it is. -/
theorem breaksIf_escapeChar (c : CodePoint) : BreaksIf (isSeparator c) (escapeChar c) := by
  by_cases hc : c.val < 0x80
  · have hnone : isSeparator c = false := by
      simp only [isSeparator, Bool.or_eq_false_iff, beq_eq_false_iff_ne]
      omega
    rw [hnone]
    exact breaksIf_plain (plain_escapeChar hc)
  · have hself : escapeChar c = [c] := by
      unfold escapeChar
      rw [if_neg (by omega), if_neg (by omega), if_neg (by omega), if_neg (by omega),
        if_neg (by omega),
        if_neg (by omega), if_neg (by omega), if_neg (by omega)]
    refine ⟨noControl_escapeChar c, ?_⟩
    rw [hself, List.any_cons, List.any_nil, Bool.or_false, isLineBreak_eq_isSeparator (by omega)]

theorem breaksIf_stringText (s : PyStr) : BreaksIf (s.any isSeparator) (stringText s) := by
  have hbody : BreaksIf (s.any isSeparator) (s.flatMap escapeChar) := by
    induction s with
    | nil => exact ⟨fun c hc => absurd hc (by simp), rfl⟩
    | cons c s ih =>
      rw [List.any_cons, List.flatMap_cons]
      exact (breaksIf_escapeChar c).append ih
  have hquote : BreaksIf false (lit "\"") := breaksIf_lit (by decide)
  have htext := (hquote.append hbody).append hquote
  rwa [Bool.false_or, Bool.or_false] at htext

/-- A joined text breaks where one of its parts does. -/
theorem breaksIf_joinTexts {a b : Bool} {t : PyStr} {ts : List PyStr} (ht : BreaksIf a t)
    (hts : BreaksIf b (joinTexts comma ts)) : BreaksIf (a || b) (joinTexts comma (t :: ts)) := by
  by_cases hnil : ts = []
  · subst hnil
    obtain rfl : false = b := hts.2
    rw [Bool.or_false]
    exact ht
  · have hcomma : BreaksIf false comma := breaksIf_lit (by decide)
    have htext := (ht.append hcomma).append hts
    rw [Bool.or_false] at htext
    rwa [joinTexts_cons comma t hnil]

theorem breaksIf_brackets {b : Bool} {t : PyStr} {first last : String} (ht : BreaksIf b t)
    (hfirst : BreaksIf false (lit first)) (hlast : BreaksIf false (lit last)) :
    BreaksIf b (lit first ++ t ++ lit last) := by
  have htext := (hfirst.append ht).append hlast
  rwa [Bool.false_or, Bool.or_false] at htext

/-! ## The text of numbers -/

theorem plain_natText (n : Nat) : Plain (natText n) := by
  intro c hc
  have hplain := isPlain_natText n c hc
  simp only [isPlain, Bool.and_eq_true, decide_eq_true_eq] at hplain
  omega

theorem plain_zeros (n : Nat) : Plain (List.replicate n (digitCp 0)) := by
  intro c hc
  rw [List.eq_of_mem_replicate hc]
  decide

theorem plain_intText (n : Int) : Plain (intText n) := by
  unfold intText
  split
  · exact (plain_lit (by decide)).append (plain_natText _)
  · exact plain_natText _

theorem plain_expText (e : Int) : Plain (expText e) := by
  unfold expText
  refine (Plain.append ?_ ?_).append (plain_natText _)
  · split <;> exact plain_lit (by decide)
  · split
    · exact plain_lit (by decide)
    · exact fun c hc => absurd hc (by simp)

theorem Plain.subset {s t : PyStr} (h : Plain s) (hsub : ∀ c ∈ t, c ∈ s) :
    Plain t := fun c hc => h c (hsub c hc)

/-- A number is written in plain characters. -/
theorem plain_decimalText (d : Decimal) : Plain (decimalText d) := by
  have hdigits := plain_natText d.coeff
  have htake : ∀ k, Plain ((natText d.coeff).take k) := fun k => hdigits.subset fun c hc =>
    List.mem_of_mem_take hc
  have hdrop : ∀ k, Plain ((natText d.coeff).drop k) := fun k => hdigits.subset fun c hc =>
    List.mem_of_mem_drop hc
  unfold decimalText
  simp only
  split
  · exact plain_lit (by decide)
  split
  · split
    · exact ((plain_lit (by decide)).append (plain_zeros _)).append hdigits
    split
    · exact (hdigits.append (plain_zeros _)).append (plain_lit (by decide))
    · exact ((htake _).append (plain_lit (by decide))).append (hdrop _)
  · refine (((htake _).append ?_).append (plain_lit (by decide))).append (plain_expText _)
    split
    · exact fun c hc => absurd hc (by simp)
    · exact (plain_lit (by decide)).append (hdrop _)

theorem plain_floatText (neg : Bool) (mag : Magnitude) : Plain (floatText neg mag) := by
  unfold floatText
  refine Plain.append ?_ (plain_decimalText _)
  split
  · exact plain_lit (by decide)
  · exact fun c hc => absurd hc (by simp)

/-! ## The text of a value -/

mutual
/-- The text breaks a line just where a text of the value holds a separator. One case for each
constructor. -/
theorem breaksIf_dumpsSpaced : ∀ (v : Json) {t : PyStr}, dumpsSpaced v = some t →
    BreaksIf (holdsSeparator v) t
  | .null, _, h => Option.some.inj h ▸ breaksIf_lit (by decide)
  | .bool true, _, h => Option.some.inj h ▸ breaksIf_lit (by decide)
  | .bool false, _, h => Option.some.inj h ▸ breaksIf_lit (by decide)
  | .int n, t, h => by
    rw [dumpsSpaced] at h
    split at h
    · cases h
    · exact Option.some.inj h ▸ breaksIf_plain (plain_intText n)
  | .float (.finite neg mag), t, h => by
    rw [dumpsSpaced] at h
    exact Option.some.inj h ▸ breaksIf_plain (plain_floatText neg mag)
  | .float .nan, t, h => by
    rw [dumpsSpaced] at h
    exact Option.some.inj h ▸ breaksIf_lit (by decide)
  | .float (.inf false), t, h => by
    rw [dumpsSpaced] at h
    exact Option.some.inj h ▸ breaksIf_lit (by decide)
  | .float (.inf true), t, h => by
    rw [dumpsSpaced] at h
    exact Option.some.inj h ▸ breaksIf_lit (by decide)
  | .str s, t, h => by
    rw [dumpsSpaced] at h
    rw [holdsSeparator]
    exact Option.some.inj h ▸ breaksIf_stringText s
  | .arr xs, t, h => by
    rw [dumpsSpaced] at h
    obtain ⟨ts, hts, rfl⟩ := Option.map_eq_some_iff.mp h
    rw [holdsSeparator]
    exact breaksIf_brackets (breaksIf_list xs (listTexts_of_some hts)) (breaksIf_lit (by decide))
      (breaksIf_lit (by decide))
  | .obj m, t, h => by
    rw [dumpsSpaced] at h
    obtain ⟨ts, hts, rfl⟩ := Option.map_eq_some_iff.mp h
    rw [holdsSeparator]
    exact breaksIf_brackets (breaksIf_members m (memberTexts_of_some hts))
      (breaksIf_lit (by decide))
      (breaksIf_lit (by decide))

theorem breaksIf_list : ∀ (xs : List Json) {ts : List PyStr}, ListTexts ts xs →
    BreaksIf (holdsSeparatorList xs) (joinTexts comma ts)
  | [], _, h => by
    cases h
    exact breaksIf_lit (s := "") (by decide)
  | x :: xs, _, h => by
    cases h with
    | cons hhead htail =>
      exact breaksIf_joinTexts (breaksIf_dumpsSpaced x hhead) (breaksIf_list xs htail)

/-- The members of an object break where a name or a value does. -/
theorem breaksIf_members : ∀ (m : List (PyStr × Json)) {ts : List (PyStr × PyStr)},
    MemberTexts ts m →
    BreaksIf (holdsSeparatorMembers m) (joinTexts comma (ts.map spacedMember))
  | [], _, h => by
    cases h
    exact breaksIf_lit (s := "") (by decide)
  | (k, v) :: m, ts, h => by
    cases h with
    | @cons t _ ts _ hhead htail =>
      obtain ⟨name, text⟩ := t
      obtain ⟨rfl, hvalue⟩ : name = k ∧ dumpsSpaced v = some text := hhead
      have hcolon : BreaksIf false (lit ": ") := breaksIf_lit (by decide)
      have hmember := ((breaksIf_stringText name).append hcolon).append
        (breaksIf_dumpsSpaced v hvalue)
      rw [Bool.or_false] at hmember
      exact breaksIf_joinTexts hmember (breaksIf_members m htail)
end

end SddGov.Python
