import SddGov.Python.Lines

/-!
# Text without the whitespace at its ends

`str.rstrip` beside `str.strip`, what both leave of a text, and the text that a
file gives when it is read with universal newlines.
-/

namespace SddGov.Python

/-! ## Universal newlines -/

/-- Universal newlines: every line ending is a line feed. -/
def universalNewlines (s : PyStr) : PyStr := (joinCrlf s).map fun c =>
    if c.val = 0x0D then lf else c

/-- No carriage return. -/
def NoReturn (s : PyStr) : Prop := ∀ c ∈ s, c.val ≠ 0x0D

theorem universalNewlines_eq_self {s : PyStr} (h : NoReturn s) : universalNewlines s = s := by
  unfold universalNewlines
  rw [joinCrlf_eq_self h]
  conv_rhs => rw [← List.map_id s]
  apply List.map_congr_left
  intro c hc
  rw [if_neg (h c hc)]
  rfl

/-! ## The ends of a text -/

/-- A text with the end of whitespace cut off. -/
def rstrip (s : PyStr) : PyStr := (s.reverse.dropWhile isSpace).reverse

theorem rstrip_eq_nil {s : PyStr} : rstrip s = [] ↔ ∀ c ∈ s, isSpace c = true := by
  unfold rstrip
  rw [List.reverse_eq_nil_iff, List.dropWhile_eq_nil_iff]
  simp

theorem rstrip_front (s : PyStr) : rstrip s <+: s := by
  unfold rstrip
  rw [← List.reverse_suffix, List.reverse_reverse]
  exact List.dropWhile_suffix _

/-- What is stripped from the end of a text that starts with something else. -/
theorem strip_eq_rstrip {s : PyStr} {c : CodePoint} {rest : PyStr} (hs : s = c :: rest)
    (hc : isSpace c = false) : strip s = rstrip s := by
  have hdrop : s.dropWhile isSpace = s := by
    rw [hs, List.dropWhile_cons_of_neg (by simp [hc])]
  unfold strip rstrip
  rw [hdrop]

/-- A piece that is no whitespace at its ends stays where it is when the text is stripped. -/
theorem strip_around {s n u : PyStr} (hn : Trimmed n) :
    strip (s ++ n ++ u) = s.dropWhile isSpace ++ n ++ rstrip u := by
  obtain ⟨c, rest, hfirst, hc⟩ := hn.first
  obtain ⟨init, d, hlast, hd⟩ := hn.last
  have hfront : (s ++ n ++ u).dropWhile isSpace = s.dropWhile isSpace ++ n ++ u := by
    have hdrop : (n ++ u).dropWhile isSpace = n ++ u := by
      rw [hfirst, List.cons_append, List.dropWhile_cons_of_neg (by simp [hc])]
    rw [List.append_assoc, List.dropWhile_append]
    split
    · next hempty =>
      have hnil : s.dropWhile isSpace = [] := by simpa using hempty
      rw [hnil, hdrop]
      rfl
    · rw [List.append_assoc]
  have hback : (u.reverse ++ (s.dropWhile isSpace ++ n).reverse).dropWhile isSpace
      = u.reverse.dropWhile isSpace ++ (s.dropWhile isSpace ++ n).reverse := by
    have hdrop : (s.dropWhile isSpace ++ n).reverse.dropWhile isSpace
      = (s.dropWhile isSpace ++ n).reverse := by
      rw [hlast, ← List.append_assoc, List.reverse_append]
      exact List.dropWhile_cons_of_neg (by simp [hd])
    rw [List.dropWhile_append]
    split
    · next hempty =>
      have hnil : u.reverse.dropWhile isSpace = [] := by simpa using hempty
      rw [hnil, hdrop, List.nil_append]
    · rfl
  unfold strip rstrip
  rw [hfront, List.reverse_append, hback, List.reverse_append, List.reverse_reverse]

/-- A text that is its own strip has no whitespace at its ends. -/
theorem trimmed_of_strip {s : PyStr} (h : strip s = s) (hne : s ≠ []) : Trimmed s := by
  have hdrop : s.dropWhile isSpace = s := by
    have hlength := congrArg List.length h
    have hshort := List.length_dropWhile_le isSpace (s.dropWhile isSpace).reverse
    unfold strip at hlength
    rw [List.length_reverse] at hlength hshort
    exact (List.dropWhile_suffix _).eq_of_length
      (le_antisymm (List.length_dropWhile_le _ _) (hlength ▸ hshort))
  have hrev : s.reverse.dropWhile isSpace = s.reverse := by
    unfold strip at h
    rw [hdrop] at h
    exact List.reverse_eq_iff.mp h
  constructor
  · obtain ⟨c, rest, rfl⟩ := List.exists_cons_of_ne_nil hne
    have hc := List.head?_dropWhile_not isSpace (c :: rest)
    rw [hdrop] at hc
    exact ⟨c, rest, rfl, by simpa using hc⟩
  · obtain ⟨c, rest, hcons⟩ := List.exists_cons_of_ne_nil
      (List.reverse_eq_nil_iff.not.mpr hne : s.reverse ≠ [])
    have hc := List.head?_dropWhile_not isSpace s.reverse
    rw [hrev, hcons] at hc
    exact ⟨rest.reverse, c, by rw [← List.reverse_reverse s, hcons,
      List.reverse_cons], by simpa using hc⟩

/-- A text is whitespace, its stripped form, and whitespace again. -/
theorem strip_spec (s : PyStr) :
    ∃ a b, s = a ++ strip s ++ b ∧ (∀ c ∈ a, isSpace c = true) ∧ ∀ c ∈ b, isSpace c = true := by
  refine ⟨s.takeWhile isSpace, ((s.dropWhile isSpace).reverse.takeWhile isSpace).reverse,
    ?_, ?_, ?_⟩
  · unfold strip
    rw [List.append_assoc, ← List.reverse_append, List.takeWhile_append_dropWhile,
      List.reverse_reverse,
      List.takeWhile_append_dropWhile]
  · intro c hc
    exact List.mem_takeWhile_imp hc
  · intro c hc
    exact List.mem_takeWhile_imp (List.mem_reverse.mp hc)

end SddGov.Python
