import Mathlib.Data.List.Infix
import Mathlib.Tactic.Common

/-!
# Searching a text

`str.find`, `str.split(word, 1)` and `str.replace`. A word without a line break
lies within one line, so it is looked for in one line after the other
(`findText_line`); a text that starts with a word is not found before the word
is (`findText_front`).
-/

namespace SddGov.Python

variable {α : Type}

/-- A word without `x` that starts before an `x` ends before it. -/
theorem prefix_of_prefix_append {word a b : List α} {x : α} (hx : x ∉ word)
    (h : word <+: a ++ x :: b) : word <+: a := by
  obtain ⟨t, ht⟩ := h
  rcases List.append_eq_append_iff.mp ht with ⟨u, hu, -⟩ | ⟨u, hu, hrest⟩
  · exact ⟨u, hu.symm⟩
  · cases u with
    | nil =>
      rw [List.append_nil] at hu
      exact hu ▸ List.prefix_refl _
    | cons y u =>
      obtain ⟨rfl, -⟩ := List.cons.inj hrest
      exact absurd (hu ▸ by simp) hx

variable [DecidableEq α]

/-- `text.find(word)`, where `none` is -1. -/
def findText (word : List α) : List α → Option Nat
  | [] => if word.isEmpty then some 0 else none
  | c :: s => if word.isPrefixOf (c :: s) then some 0 else (findText word s).map (· + 1)

/-- `text.split(word, 1)`, for a word that is there. -/
def splitOnce (word text : List α) : Option (List α × List α) :=
  (findText word text).map fun i => (text.take i, text.drop (i + word.length))

/-- `text.replace(old, new)`: `skip` characters of `old` are still to be passed over. -/
def replaceFrom (old new : List α) : Nat → List α → List α
  | _, [] => []
  | skip + 1, _ :: s => replaceFrom old new skip s
  | 0, c :: s =>
    if old.isPrefixOf (c :: s) then new ++ replaceFrom old new (old.length - 1) s
    else c :: replaceFrom old new 0 s

/-- `text.replace(old, new)`, for an `old` that is not empty. -/
def replaceText (old new text : List α) : List α := replaceFrom old new 0 text

theorem findText_self (word rest : List α) : findText word (word ++ rest) = some 0 := by
  cases hword : word ++ rest with
  | nil =>
    obtain ⟨rfl, -⟩ := List.append_eq_nil_iff.mp hword
    rfl
  | cons c s =>
    have hfront : word.isPrefixOf (c :: s) = true := List.isPrefixOf_iff_prefix.mpr ⟨rest, hword⟩
    rw [findText, if_pos hfront]

/-- A word that is no infix is not found. -/
theorem findText_eq_none {word text : List α} (h : ¬ word <:+: text) :
    findText word text = none := by
  induction text with
  | nil =>
    have hne : word ≠ [] := by
      rintro rfl
      exact h (List.nil_infix)
    simp [findText, hne]
  | cons c s ih =>
    have hfront : ¬ word.isPrefixOf (c :: s) = true := fun hp =>
      h (List.isPrefixOf_iff_prefix.mp hp).isInfix
    have htail : ¬ word <:+: s := fun hs => h (hs.trans (List.suffix_cons c s).isInfix)
    rw [findText, if_neg hfront, ih htail]
    rfl

/-- A word that is not found is no infix. -/
theorem not_infix_of_findText {word text : List α} (h : findText word text = none) :
    ¬ word <:+: text := by
  induction text with
  | nil =>
    intro hin
    obtain rfl := List.infix_nil.mp hin
    exact absurd h (by simp [findText])
  | cons c s ih =>
    intro hin
    rw [findText] at h
    split at h
    · exact absurd h (by simp)
    · next hfront =>
      rcases List.infix_cons_iff.mp hin with hp | hs
      · exact hfront (List.isPrefixOf_iff_prefix.mpr hp)
      · exact ih (Option.map_eq_none_iff.mp h) hs

/-- A word that is not in the first line is looked for behind it. -/
theorem findText_line {word a b : List α} {x : α} (hx : x ∉ word) (ha : ¬ word <:+: a) :
    findText word (a ++ x :: b) = (findText word b).map (· + (a.length + 1)) := by
  induction a with
  | nil =>
    have hfront : ¬ word.isPrefixOf (x :: b) = true := fun hp =>
      ha (prefix_of_prefix_append (a := []) hx (List.isPrefixOf_iff_prefix.mp hp)).isInfix
    rw [List.nil_append, findText, if_neg hfront]
    rfl
  | cons c a ih =>
    have hfront : ¬ word.isPrefixOf (c :: (a ++ x :: b)) = true := fun hp =>
      ha (prefix_of_prefix_append hx (List.isPrefixOf_iff_prefix.mp hp)).isInfix
    -- not found here, the word is looked for one character on
    have htail : ¬ word <:+: a := fun hs => ha (hs.trans (List.suffix_cons c a).isInfix)
    rw [List.cons_append, findText, if_neg hfront, ih htail, Option.map_map]
    rfl

/-- A text that starts with the word is found where the word is first, if it is there. -/
theorem findText_front {word big text : List α} {i : Nat} (h : findText word text = some i)
    (hbig : word <+: big)
    (hthere : big <+: text.drop i) : findText big text = some i := by
  induction text generalizing i with
  | nil =>
    rw [List.drop_nil, List.prefix_nil] at hthere
    rw [findText] at h ⊢
    split at h
    · rw [hthere]
      exact h
    · exact absurd h (by simp)
  | cons c s ih =>
    rw [findText] at h ⊢
    split at h
    · obtain rfl := Option.some.inj h
      rw [List.drop_zero] at hthere
      rw [if_pos (List.isPrefixOf_iff_prefix.mpr hthere)]
    · next hword =>
      obtain ⟨j, hj, rfl⟩ := Option.map_eq_some_iff.mp h
      have hfront : ¬ big.isPrefixOf (c :: s) = true := fun hp =>
        hword (List.isPrefixOf_iff_prefix.mpr (hbig.trans (List.isPrefixOf_iff_prefix.mp hp)))
      rw [if_neg hfront, ih hj hthere]
      rfl

/-- Replacing a word by itself changes nothing. -/
theorem replaceFrom_self {word : List α} (hne : word ≠ []) (skip : Nat) (text : List α) :
    replaceFrom word word skip text = text.drop skip := by
  induction text generalizing skip with
  | nil => cases skip <;> rfl
  | cons c s ih =>
    cases skip with
    | succ skip => exact ih skip
    | zero =>
      rw [replaceFrom]
      split
      · next hfront =>
        obtain ⟨rest, hrest⟩ := List.isPrefixOf_iff_prefix.mp hfront
        obtain ⟨d, word', rfl⟩ := List.exists_cons_of_ne_nil hne
        obtain ⟨rfl, hs⟩ := List.cons.inj hrest
        -- what is written for the word is the word, and as many characters of the text are passed
        -- over
        have hlength : (d :: word').length - 1 = word'.length := rfl
        have hdrop : s.drop word'.length = rest := by rw [← hs, List.append_eq, List.drop_left]
        rw [hlength, ih, hdrop, hrest, List.drop_zero]
      · rw [ih]
        rfl

/-- Replacing a text by itself. -/
theorem replaceText_self {word : List α} (hne : word ≠ []) (text : List α) :
    replaceText word word text = text :=
  replaceFrom_self hne 0 text

end SddGov.Python
