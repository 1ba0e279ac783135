import Mathlib.Data.List.TakeWhile
import SddGov.Python.Json

/-!
# Lines and words

`str.splitlines`, `str.split` with and without a separator, and `sorted(set(...))`.
What was written line by line, or field by field, is read back as it was
written (`splitLines_strip_terminated`, `words_spaced`, `splitAt_terminated`).
-/

namespace SddGov.Python

/-- A line feed. -/
def lf : CodePoint := cp 0x0A

/-- `"\0"`. -/
def nul : CodePoint := cp 0x00

/-- The characters `str.splitlines` ends a line at. -/
def isLineBreak (c : CodePoint) : Bool :=
  (0x0A ≤ c.val && c.val ≤ 0x0D) || (0x1C ≤ c.val && c.val ≤ 0x1E) || c.val == 0x85
    || c.val == 0x2028 || c.val == 0x2029

/-- A carriage return and a line feed are one line break. -/
def joinCrlf : PyStr → PyStr
  | [] => []
  | [c] => [c]
  | c :: d :: rest => if c.val = 0x0D ∧ d = lf then joinCrlf (d :: rest) else
      c :: joinCrlf (d :: rest)

/-- A text that ends with a line break has no line after it. -/
def dropEmptyLast (lines : List PyStr) : List PyStr :=
  match lines.getLast? with
  | some [] => lines.dropLast
  | _ => lines

/-- `str.splitlines()`. -/
def splitLines (s : PyStr) : List PyStr := dropEmptyLast ((joinCrlf s).splitOnP isLineBreak)

/-- `str.split()`. -/
def words (s : PyStr) : List PyStr := (s.splitOnP isSpace).filter fun w => !w.isEmpty

/-- `str.split(sep)` for one character. -/
def splitAt (sep : CodePoint) (s : PyStr) : List PyStr := s.splitOnP (· == sep)

/-- `sorted(set(texts))`. -/
def sortedSet (texts : List PyStr) : List PyStr := texts.dedup.insertionSort fun a b =>
    strLe a b = true

theorem mem_sortedSet {texts : List PyStr} {s : PyStr} : s ∈ sortedSet texts ↔ s ∈ texts := by
  unfold sortedSet
  rw [List.mem_insertionSort, List.mem_dedup]

/-- `sep.join(texts)`. -/
def joinTexts (sep : PyStr) : List PyStr → PyStr
  | [] => []
  | [s] => s
  | s :: t :: rest => s ++ sep ++ joinTexts sep (t :: rest)

/-! ## Reading back -/

/-- The texts one after the other, each ended by `sep`. -/
def terminated (sep : CodePoint) (texts : List PyStr) : PyStr := texts.flatMap (· ++ [sep])

/-- The words with a space between them. -/
def spaced : List PyStr → PyStr
  | [] => []
  | [w] => w
  | w :: v :: rest => w ++ cp 0x20 :: spaced (v :: rest)

/-- A text that starts and ends with something else than whitespace. -/
structure Trimmed (s : PyStr) : Prop where
  first : ∃ c rest, s = c :: rest ∧ isSpace c = false
  last : ∃ init c, s = init ++ [c] ∧ isSpace c = false

/-- Only whitespace after a trimmed text is stripped. -/
theorem strip_append {s space : PyStr} (hs : Trimmed s) (hspace : ∀ c ∈ space, isSpace c = true) :
    strip (s ++ space) = s := by
  obtain ⟨c, rest, hfirst, hc⟩ := hs.first
  obtain ⟨init, d, hlast, hd⟩ := hs.last
  have hdrop : (s ++ space).dropWhile isSpace = s ++ space := by
    rw [hfirst, List.cons_append, List.dropWhile_cons_of_neg (by simp [hc])]
  have htail : space.reverse.dropWhile isSpace = [] := by
    rw [List.dropWhile_eq_nil_iff]
    intro x hx
    exact hspace x (List.mem_reverse.mp hx)
  unfold strip
  rw [hdrop, List.reverse_append, List.dropWhile_append, htail, hlast]
  simp [hd]

theorem strip_trimmed {s : PyStr} (hs : Trimmed s) : strip s = s := by
  have h : strip (s ++ []) = s := strip_append hs (by simp)
  rwa [List.append_nil] at h

/-- Terminated texts are split into themselves, with nothing behind the last end. -/
theorem splitAt_terminated {sep : CodePoint} {texts : List PyStr} (h : ∀ s ∈ texts, sep ∉ s) :
    splitAt sep (terminated sep texts) = texts ++ [[]] := by
  induction texts with
  | nil => rfl
  | cons s texts ih =>
    have hs : ∀ c ∈ s, (c == sep) = false := by
      intro c hc
      rw [beq_eq_false_iff_ne]
      rintro rfl
      exact h s (List.mem_cons_self ..) hc
    have hrest := ih fun t ht => h t (List.mem_cons_of_mem _ ht)
    unfold splitAt terminated at hrest ⊢
    rw [List.flatMap_cons, List.append_assoc, List.singleton_append,
      List.splitOnP_append_cons_of_forall_mem hs sep (beq_self_eq_true sep), hrest]
    rfl

/-! ## Lines -/

/-- Text that holds no whitespace holds no line break. -/
theorem isLineBreak_of_not_isSpace {c : CodePoint} (h : isSpace c = false) :
    isLineBreak c = false := by
  unfold isSpace at h
  unfold isLineBreak
  simp only [Bool.or_eq_false_iff, Bool.and_eq_false_iff, decide_eq_false_iff_not,
    beq_eq_false_iff_ne,
    ne_eq] at h ⊢
  omega

/-- A word: some text, none of it whitespace. -/
structure Word (s : PyStr) : Prop where
  nonempty : s ≠ []
  solid : ∀ c ∈ s, isSpace c = false

theorem Word.trimmed {s : PyStr} (h : Word s) : Trimmed s := by
  obtain ⟨c, rest, rfl⟩ := List.exists_cons_of_ne_nil h.nonempty
  refine ⟨⟨c, rest, rfl, h.solid c (List.mem_cons_self ..)⟩, (c :: rest).dropLast,
    (c :: rest).getLast h.nonempty, (List.dropLast_append_getLast h.nonempty).symm, ?_⟩
  exact h.solid _ (List.getLast_mem h.nonempty)

theorem joinCrlf_eq_self {s : PyStr} (h : ∀ c ∈ s, c.val ≠ 0x0D) : joinCrlf s = s := by
  induction s with
  | nil => rfl
  | cons c s ih =>
    have hs := ih fun d hd => h d (List.mem_cons_of_mem _ hd)
    cases s with
    | nil => rfl
    | cons d s =>
      rw [joinCrlf, if_neg fun hcr => h c (List.mem_cons_self ..) hcr.1, hs]

/-- Lines of words, with a last one that is not ended, are read back. -/
theorem splitOnP_lines {init : List PyStr} {last : PyStr} (hinit : ∀ s ∈ init, Word s)
    (hlast : Word last) : (terminated lf init ++ last).splitOnP isLineBreak = init ++ [last] := by
  have hsolid {s : PyStr} (hs : Word s) : ∀ c ∈ s, isLineBreak c = false :=
    fun c hc => isLineBreak_of_not_isSpace (hs.solid c hc)
  induction init with
  | nil => exact List.splitOnP_eq_singleton (hsolid hlast)
  | cons s init ih =>
    have hrest := ih fun t ht => hinit t (List.mem_cons_of_mem _ ht)
    unfold terminated at hrest ⊢
    rw [List.flatMap_cons, List.append_assoc, List.append_assoc, List.singleton_append,
      List.splitOnP_append_cons_of_forall_mem (hsolid (hinit s (List.mem_cons_self ..))) lf
        rfl, hrest]
    rfl

theorem mem_terminated {sep : CodePoint} {texts : List PyStr} {c : CodePoint}
    (h : c ∈ terminated sep texts) : c = sep ∨ ∃ s ∈ texts, c ∈ s := by
  obtain ⟨s, hs, hc⟩ := List.mem_flatMap.mp h
  rcases List.mem_append.mp hc with hc | hc
  · exact .inr ⟨s, hs, hc⟩
  · exact .inl (List.mem_singleton.mp hc)

/-- **Lines of words are read back** after `strip().splitlines()`. -/
theorem splitLines_strip_terminated {texts : List PyStr} (h : ∀ s ∈ texts, Word s) :
    splitLines (strip (terminated lf texts)) = texts := by
  rcases List.eq_nil_or_concat texts with rfl | ⟨init, last, rfl⟩
  · rfl
  · rw [List.concat_eq_append] at h ⊢
    have hinit : ∀ s ∈ init, Word s := fun s hs => h s (by simp [hs])
    have hlast : Word last := h last (by simp)
    have hbody : terminated lf (init ++ [last]) = (terminated lf init ++ last) ++ [lf] := by
      simp [terminated]
    have htrim : Trimmed (terminated lf init ++ last) := by
      constructor
      · cases init with
        | nil => exact hlast.trimmed.first
        | cons s init =>
          obtain ⟨c, rest, hs, hc⟩ := (hinit s (List.mem_cons_self ..)).trimmed.first
          exact ⟨c, rest ++ [lf] ++ terminated lf init ++ last, by simp [terminated, hs], hc⟩
      · obtain ⟨front, c, hl, hc⟩ := hlast.trimmed.last
        exact ⟨terminated lf init ++ front, c, by rw [hl, List.append_assoc], hc⟩
    have hcr : ∀ c ∈ terminated lf init ++ last, c.val ≠ 0x0D := by
      have hsolid {s : PyStr} (hs : Word s) : ∀ c ∈ s, c.val ≠ 0x0D := by
        intro c hc heq
        have hspace := hs.solid c hc
        unfold isSpace at hspace
        simp [heq] at hspace
      intro c hc
      rcases List.mem_append.mp hc with hc | hc
      · rcases mem_terminated hc with rfl | ⟨s, hs, hc⟩
        · decide
        · exact hsolid (hinit s hs) c hc
      · exact hsolid hlast c hc
    rw [hbody, strip_append htrim (by simp [lf, isSpace])]
    unfold splitLines
    rw [joinCrlf_eq_self hcr, splitOnP_lines hinit hlast]
    unfold dropEmptyLast
    obtain ⟨c, rest, hl, -⟩ := hlast.trimmed.first
    simp [hl]

theorem trimmed_spaced {w : PyStr} {ws : List PyStr} (h : ∀ s ∈ w :: ws, Word s) :
    Trimmed (spaced (w :: ws)) := by
  induction ws generalizing w with
  | nil => exact (h w (List.mem_cons_self ..)).trimmed
  | cons v ws ih =>
    have hrest := ih fun s hs => h s (List.mem_cons_of_mem _ hs)
    obtain ⟨c, rest, hw, hc⟩ := (h w (List.mem_cons_self ..)).trimmed.first
    obtain ⟨init, d, hl, hd⟩ := hrest.last
    exact ⟨⟨c, rest ++ cp 0x20 :: spaced (v :: ws), by rw [spaced, hw]; rfl, hc⟩,
      w ++ cp 0x20 :: init, d, by rw [spaced, hl, List.append_assoc]; rfl, hd⟩

theorem splitOnP_spaced {w : PyStr} {ws : List PyStr} (h : ∀ s ∈ w :: ws, Word s) :
    (spaced (w :: ws)).splitOnP isSpace = w :: ws := by
  have hw := (h w (List.mem_cons_self ..)).solid
  induction ws generalizing w with
  | nil => exact List.splitOnP_eq_singleton hw
  | cons v ws ih =>
    have htail : ∀ s ∈ v :: ws, Word s := fun s hs => h s (List.mem_cons_of_mem _ hs)
    rw [spaced, List.splitOnP_append_cons_of_forall_mem hw (cp 0x20) rfl,
      ih htail (htail v (List.mem_cons_self ..)).solid]

/-- **Words are read back** after `strip().split()`. -/
theorem words_strip_spaced {ws : List PyStr} (h : ∀ s ∈ ws, Word s) {space : PyStr}
    (hspace : ∀ c ∈ space, isSpace c = true) (hne : ws ≠ []) :
    words (strip (spaced ws ++ space)) = ws := by
  obtain ⟨w, ws, rfl⟩ := List.exists_cons_of_ne_nil hne
  rw [strip_append (trimmed_spaced h) hspace]
  unfold words
  rw [splitOnP_spaced h, List.filter_eq_self]
  intro s hs
  simpa using (h s hs).nonempty

end SddGov.Python
