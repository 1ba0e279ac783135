import SddGov.Python.Strip

/-!
# Lines and their parts

A file read as text is broken at `\n`, `\r` and `\r\n` only; `str.splitlines`
breaks at eight more characters, all of them whitespace. So what `splitlines`
finds are the parts of the file's lines, but for blank ones (`splitLines_parts`).
-/

namespace SddGov.Python

/-- The lines of a file opened as text, without their ends. -/
def textLines (s : PyStr) : List PyStr := (universalNewlines s).splitOnP (· == lf)

/-- What `str.splitlines` makes of a line, but for what is blank. -/
def parts (s : PyStr) : List PyStr := (s.splitOnP isLineBreak).filter fun part => !isBlank part

theorem isSpace_of_isLineBreak {c : CodePoint} (h : isLineBreak c = true) : isSpace c = true := by
  by_contra hspace
  rw [Bool.not_eq_true] at hspace
  rw [isLineBreak_of_not_isSpace hspace] at h
  cases h

/-- Where every separator of the coarse splitting is one of the fine, the pieces are split
further. -/
theorem splitOnP_refine {p q : CodePoint → Bool} (h : ∀ c, q c = true → p c = true) (s : PyStr) :
    s.splitOnP p = (s.splitOnP q).flatMap (·.splitOnP p) := by
  -- by the length of the text, cut at its first coarse separator
  generalize hn : s.length = n
  induction n using Nat.strongRecOn generalizing s with
  | ind n ih =>
    by_cases hall : ∀ c ∈ s, q c = false
    · rw [List.splitOnP_eq_singleton hall, List.flatMap_singleton]
    · rw [not_forall] at hall
      obtain ⟨c, hc⟩ := hall
      rw [Classical.not_imp, Bool.not_eq_false] at hc
      obtain ⟨front, rest, rfl⟩ := List.append_of_mem hc.1
      have hsep : p c = true := h c hc.2
      rw [List.splitOnP_append_cons front rest hc.2, List.splitOnP_append_cons front rest hsep,
        List.flatMap_append,
        ← ih front.length (by rw [← hn, List.length_append, List.length_cons]; omega) front rfl,
        ← ih rest.length (by rw [← hn, List.length_append, List.length_cons]; omega) rest rfl]

/-- Separators may be replaced by other separators. -/
theorem splitOnP_map_eq {p : CodePoint → Bool} {f : CodePoint → CodePoint} (hp : ∀ c, p (f c) = p c)
    (hf : ∀ c, p c = false → f c = c) (s : PyStr) : (s.map f).splitOnP p = s.splitOnP p := by
  induction s with
  | nil => rfl
  | cons c s ih =>
    rw [List.map_cons, List.splitOnP_cons_eq_if_modifyHead,
      List.splitOnP_cons_eq_if_modifyHead, hp, ih]
    by_cases hc : p c = true
    · rw [if_pos hc, if_pos hc]
    · rw [if_neg hc, if_neg hc, hf c (by simpa using hc)]

/-- Universal newlines have the lines of the text, since a carriage return breaks alone too. -/
theorem splitOnP_universalNewlines (s : PyStr) :
    (universalNewlines s).splitOnP isLineBreak = (joinCrlf s).splitOnP isLineBreak := by
  unfold universalNewlines
  apply splitOnP_map_eq
  · intro c
    by_cases hc : c.val = 0x0D
    · have hcr : isLineBreak c = true := by simp [isLineBreak, hc]
      rw [if_pos hc, hcr]
      rfl
    · rw [if_neg hc]
  · intro c hc
    refine if_neg fun hcr => ?_
    simp [isLineBreak, hcr] at hc

theorem filter_dropEmptyLast (lines : List PyStr) :
    (dropEmptyLast lines).filter (fun part => !isBlank part) = lines.filter fun part =>
    !isBlank part := by
  unfold dropEmptyLast
  split
  · next hlast =>
    conv_rhs => rw [← List.dropLast_append_getLast? [] hlast]
    rw [List.filter_append]
    simp [isBlank]
  · rfl

/-- The lines of `str.splitlines` are the parts of the file's lines, but for blank ones. -/
theorem splitLines_parts (s : PyStr) :
    (splitLines s).filter (fun part => !isBlank part) = (textLines s).flatMap parts := by
  have hlf : ∀ c : CodePoint, (c == lf) = true → isLineBreak c = true := by
    intro c hc
    rw [beq_iff_eq.mp hc]
    rfl
  unfold splitLines textLines
  rw [filter_dropEmptyLast, ← splitOnP_universalNewlines, splitOnP_refine hlf, List.filter_flatMap]
  rfl

/-! ## How many parts -/

/-- A character that does not split stands in one of the pieces. -/
theorem exists_piece {p : CodePoint → Bool} {c : CodePoint} (hc : p c = false) {s : PyStr}
    (h : c ∈ s) :
    ∃ piece ∈ s.splitOnP p, c ∈ piece := by
  -- by the length of the text, cut at its first separator
  generalize hn : s.length = n
  induction n using Nat.strongRecOn generalizing s with
  | ind n ih =>
    by_cases hall : ∀ d ∈ s, p d = false
    · exact ⟨s, by rw [List.splitOnP_eq_singleton hall]; exact List.mem_singleton_self s, h⟩
    · simp only [not_forall, Bool.not_eq_false] at hall
      obtain ⟨d, hmem, hsep⟩ := hall
      obtain ⟨front, rest, rfl⟩ := List.append_of_mem hmem
      rw [List.length_append, List.length_cons] at hn
      rw [List.splitOnP_append_cons front rest hsep]
      rcases List.mem_append.mp h with hfront | hrest
      · obtain ⟨piece, hpiece, hin⟩ := ih front.length (by omega) hfront rfl
        exact ⟨piece, List.mem_append_left _ hpiece, hin⟩
      · rcases List.mem_cons.mp hrest with rfl | hrest
        · rw [hc] at hsep
          cases hsep
        · obtain ⟨piece, hpiece, hin⟩ := ih rest.length (by omega) hrest rfl
          exact ⟨piece, List.mem_append_right _ hpiece, hin⟩

/-- A text with something to see has a part. -/
theorem parts_pos {c : CodePoint} (hc : isSpace c = false) {s : PyStr} (h : c ∈ s) :
    1 ≤ (parts s).length := by
  obtain ⟨piece, hpiece, hin⟩ := exists_piece (isLineBreak_of_not_isSpace hc) h
  refine List.length_pos_iff.mpr (List.ne_nil_of_mem (List.mem_filter.mpr ⟨hpiece, ?_⟩))
  rw [Bool.not_eq_true', isBlank, List.all_eq_false]
  exact ⟨c, hin, by rw [hc]; simp⟩

/-- A line without a break is its own part. -/
theorem parts_unbroken {s : PyStr} (hs : Trimmed s) (h : s.any isLineBreak = false) :
    parts s = [s] := by
  obtain ⟨c, rest, rfl, hc⟩ := hs.first
  have hblank : isBlank (c :: rest) = false := by
    rw [isBlank, List.all_cons, hc]
    rfl
  unfold parts
  rw [List.splitOnP_eq_singleton fun d hd => by
    simpa using List.any_eq_false.mp h d hd, List.filter_cons, hblank]
  rfl

/-- A line with a break has parts on both sides of it. -/
theorem two_le_parts {s : PyStr} (hs : Trimmed s) (h : s.any isLineBreak = true) :
    2 ≤ (parts s).length := by
  obtain ⟨c, rest, hfirst, hc⟩ := hs.first
  obtain ⟨init, d, hlast, hd⟩ := hs.last
  obtain ⟨b, hmem, hbreak⟩ := List.any_eq_true.mp h
  obtain ⟨before, after, rfl⟩ := List.append_of_mem hmem
  have hspace := isSpace_of_isLineBreak hbreak
  have hbefore : c ∈ before := by
    cases before with
    | nil =>
      obtain rfl : b = c := (List.cons.inj hfirst).1
      rw [hc] at hspace
      cases hspace
    | cons e before =>
      obtain rfl : e = c := (List.cons.inj hfirst).1
      exact List.mem_cons_self ..
  have hafter : d ∈ after := by
    rcases List.eq_nil_or_concat after with rfl | ⟨front, e, rfl⟩
    · obtain rfl : b = d := (List.append_inj' hlast rfl).2 |> List.singleton_inj.mp
      rw [hd] at hspace
      cases hspace
    · rw [List.concat_eq_append, ← List.cons_append, ← List.append_assoc] at hlast
      obtain rfl : e = d := (List.append_inj' hlast rfl).2 |> List.singleton_inj.mp
      simp
  have hleft := parts_pos hc hbefore
  have hright := parts_pos hd hafter
  have hparts : parts (before ++ b :: after) = parts before ++ parts after := by
    unfold parts
    rw [List.splitOnP_append_cons before after hbreak, List.filter_append]
  rw [hparts, List.length_append]
  omega

/-- Trimmed lines have at least a part each, and one each where none of them breaks. -/
theorem length_parts {texts : List PyStr} (h : ∀ t ∈ texts, Trimmed t) :
    texts.length ≤ (texts.flatMap parts).length
      ∧ ((texts.flatMap parts).length = texts.length ↔ ∀ t ∈ texts, t.any isLineBreak = false) := by
  induction texts with
  | nil => simp
  | cons t texts ih =>
    obtain ⟨hle, hiff⟩ := ih fun u hu => h u (List.mem_cons_of_mem _ hu)
    have ht := h t (List.mem_cons_self ..)
    rw [List.flatMap_cons, List.length_append, List.length_cons, List.forall_mem_cons, ← hiff]
    cases hbreak : t.any isLineBreak with
    | false =>
      rw [parts_unbroken ht hbreak, List.length_singleton]
      constructor
      · omega
      · simp only [true_and]
        omega
    | true =>
      have htwo := two_le_parts ht hbreak
      constructor
      · omega
      · simp only [Bool.true_eq_false, false_and, iff_false]
        omega

/-! ## Stripping -/

theorem dropWhile_blank {blank : PyStr} (h : ∀ c ∈ blank, isSpace c = true) (s : PyStr) :
    (blank ++ s).dropWhile isSpace = s.dropWhile isSpace := by
  rw [List.dropWhile_append, List.dropWhile_eq_nil_iff.mpr h]
  rfl

/-- Whitespace before a text is stripped. -/
theorem strip_blank_append {blank : PyStr} (h : ∀ c ∈ blank, isSpace c = true) (s : PyStr) :
    strip (blank ++ s) = strip s := by
  unfold strip
  rw [dropWhile_blank h]

/-- And whitespace after it. -/
theorem strip_append_blank {blank : PyStr} (h : ∀ c ∈ blank, isSpace c = true) (s : PyStr) :
    strip (s ++ blank) = strip s := by
  have hreverse : ∀ c ∈ blank.reverse, isSpace c = true := fun c hc => h c (List.mem_reverse.mp hc)
  unfold strip
  by_cases hs : s.dropWhile isSpace = []
  · rw [List.dropWhile_append, hs, List.dropWhile_eq_nil_iff.mpr h]
    rfl
  · have happend : (s ++ blank).dropWhile isSpace = s.dropWhile isSpace ++ blank := by
      rw [List.dropWhile_append, if_neg (by simpa using hs)]
    rw [happend, List.reverse_append, dropWhile_blank hreverse]

end SddGov.Python
