import SddGov.Git.NameStatus

/-!
# The listing of a tree

`git ls-tree --name-only` writes one path a line. A path with a byte that would
break the line, or that `core.quotePath` is about, is put between quotes with
its bytes escaped. A reader that splits the text into lines therefore does not
see every path as it is; what it does see of a piece of text that is never
escaped is `line_around` and `line_of_start`.
-/

namespace SddGov.Python

/-! ## Lines that show a piece -/

section Split

variable {α : Type} {p : α → Bool}

/-- The first piece begins with what holds no separator. -/
theorem splitOnP_front {n y : List α} (hn : ∀ c ∈ n, p c = false) :
    ∃ first others, (n ++ y).splitOnP p = (n ++ first) :: others := by
  induction n with
  | nil =>
    obtain ⟨first, others, h⟩ := List.exists_cons_of_ne_nil (List.splitOnP_ne_nil p y)
    exact ⟨first, others, h⟩
  | cons c n ih =>
    obtain ⟨first, others, h⟩ := ih fun d hd => hn d (List.mem_cons_of_mem _ hd)
    refine ⟨first, others, ?_⟩
    rw [List.cons_append, List.splitOnP_cons_eq_if_modifyHead, hn c (List.mem_cons_self ..), h]
    rfl

/-- The first piece of the rest is the end of a piece of the whole. -/
theorem splitOnP_suffix (x : List α) {z first : List α} {others : List (List α)}
    (hz : z.splitOnP p = first :: others) : ∃ piece ∈ (x ++ z).splitOnP p, first <:+ piece := by
  induction x with
  | nil => exact ⟨first, by rw [List.nil_append, hz]; simp, List.suffix_refl _⟩
  | cons a x ih =>
    obtain ⟨piece, hpiece, hsuffix⟩ := ih
    rw [List.cons_append, List.splitOnP_cons_eq_if_modifyHead]
    by_cases ha : p a
    · exact ⟨piece, by simp [ha, hpiece], hsuffix⟩
    · obtain ⟨head, tail, hsplit⟩ := List.exists_cons_of_ne_nil (List.splitOnP_ne_nil p (x ++ z))
      rw [hsplit] at hpiece
      rcases List.mem_cons.mp hpiece with rfl | hpiece
      · exact ⟨a :: piece, by simp [ha, hsplit], hsuffix.trans (List.suffix_cons a piece)⟩
      · exact ⟨piece, by simp [ha, hsplit, hpiece], hsuffix⟩

/-- After a separator the first piece of the rest is a piece of the whole. -/
theorem splitOnP_after (x : List α) {b : α} (hb : p b = true) {z first : List α}
    {others : List (List α)}
    (hz : z.splitOnP p = first :: others) :
    ∃ head tail, (x ++ b :: z).splitOnP p = head :: tail ∧ first ∈ tail := by
  induction x with
  | nil =>
    exact ⟨[], z.splitOnP p, by rw [List.nil_append, List.splitOnP_cons_eq_if_modifyHead,
      if_pos hb], by rw [hz]; simp⟩
  | cons a x ih =>
    obtain ⟨head, tail, hsplit, hfirst⟩ := ih
    rw [List.cons_append, List.splitOnP_cons_eq_if_modifyHead, hsplit]
    by_cases ha : p a
    · exact ⟨[], head :: tail, by simp [ha], List.mem_cons_of_mem _ hfirst⟩
    · exact ⟨a :: head, tail, by simp [ha], hfirst⟩

end Split

/-- A line that is not empty stays. -/
theorem mem_dropEmptyLast {lines : List PyStr} {line : PyStr} (h : line ∈ lines) (hne : line ≠ []) :
    line ∈ dropEmptyLast lines := by
  unfold dropEmptyLast
  split
  · next hlast =>
    obtain ⟨init, rfl⟩ := List.getLast?_eq_some_iff.mp hlast
    rw [List.dropLast_concat]
    rcases List.mem_append.mp h with h | h
    · exact h
    · exact absurd (List.mem_singleton.mp h) hne
  · exact h

/-- A line breaks nowhere. -/
def Unbroken (n : PyStr) : Prop := n ≠ [] ∧ ∀ c ∈ n, isLineBreak c = false

/-- A piece without line breaks lies in a line. -/
theorem line_around {x n y : PyStr} (hn : Unbroken n) (hreturn : NoReturn (x ++ n ++ y)) :
    ∃ line ∈ splitLines (x ++ n ++ y), n <:+: line := by
  obtain ⟨first, others, hsplit⟩ := splitOnP_front (y := y) hn.2
  obtain ⟨line, hline, hsuffix⟩ := splitOnP_suffix x hsplit
  have hinfix : n <:+: line := (List.prefix_append n first).isInfix.trans hsuffix.isInfix
  refine ⟨line, ?_, hinfix⟩
  unfold splitLines
  rw [joinCrlf_eq_self hreturn, List.append_assoc]
  refine mem_dropEmptyLast hline fun hnil => ?_
  rw [hnil, List.infix_nil] at hinfix
  exact hn.1 hinfix

/-- The text is empty or ends with a line feed. -/
def LineStart (s : PyStr) : Prop := s = [] ∨ ∃ init, s = init ++ [lf]

/-- A piece without line breaks at the start of a line begins it. -/
theorem line_of_start {x n y : PyStr} (hn : Unbroken n) (hx : LineStart x)
    (hreturn : NoReturn (x ++ n ++ y)) : ∃ line ∈ splitLines (x ++ n ++ y), n <+: line := by
  obtain ⟨first, others, hsplit⟩ := splitOnP_front (y := y) hn.2
  refine ⟨n ++ first, ?_, List.prefix_append n first⟩
  unfold splitLines
  rw [joinCrlf_eq_self hreturn, List.append_assoc]
  refine mem_dropEmptyLast ?_ fun hnil => hn.1 (List.append_eq_nil_iff.mp hnil).1
  rcases hx with rfl | ⟨init, rfl⟩
  · rw [List.nil_append, hsplit]
    simp
  · obtain ⟨head, tail, hpieces, hmem⟩ := splitOnP_after init (p := isLineBreak)
      (b := lf) rfl hsplit
    rw [List.append_assoc, List.singleton_append, hpieces]
    exact List.mem_cons_of_mem _ hmem

/-- Leading whitespace goes away up to the start of a line. -/
theorem lineStart_dropWhile {s : PyStr} (h : LineStart s) : LineStart (s.dropWhile isSpace) := by
  rcases h with rfl | ⟨init, rfl⟩
  · exact .inl rfl
  · rw [List.dropWhile_append]
    split
    · exact .inl rfl
    · exact .inr ⟨_, rfl⟩

end SddGov.Python

namespace SddGov.Git

open SddGov.Python

/-! ## Paths -/

/-- The separator of a path. -/
def slash : Byte := byte 0x2F

/-- A path of a tree: its components, each some bytes without a separator or a NUL. -/
structure TreePath where
  components : List Bytes
  named : components ≠ [] ∧ ∀ c ∈ components, c ≠ [] ∧ slash ∉ c ∧ byte 0 ∉ c

/-- The components with a separator between them. -/
def joinPath : List Bytes → Bytes
  | [] => []
  | [c] => c
  | c :: d :: rest => c ++ slash :: joinPath (d :: rest)

def TreePath.bytes (p : TreePath) : Bytes := joinPath p.components

/-- A path joined in two parts has a slash between them. -/
theorem joinPath_append {before after : List Bytes} (hb : before ≠ []) (ha : after ≠ []) :
    joinPath (before ++ after) = joinPath before ++ slash :: joinPath after := by
  induction before with
  | nil => exact absurd rfl hb
  | cons c before ih =>
    cases before with
    | nil =>
      obtain ⟨d, rest, rfl⟩ := List.exists_cons_of_ne_nil ha
      rfl
    | cons d before =>
      have hrest := ih (by simp)
      simp only [List.cons_append, joinPath] at hrest ⊢
      rw [hrest, List.append_assoc, List.cons_append]

/-! ## Quoting -/

/-- A byte that makes git quote the path: a control character, a quote, a backslash, and beyond
ASCII where `core.quotePath` is on. -/
def mustQuote (quotePath : Bool) (b : Byte) : Bool :=
  b.val < 0x20 || b.val == 0x22 || b.val == 0x5C || b.val == 0x7F || (quotePath && 0x80 ≤ b.val)

/-- The escape of a byte: a letter, or three octal digits. -/
def escape (b : Byte) : Bytes :=
  byte 0x5C :: match [(7, 0x61), (8, 0x62), (9, 0x74), (10, 0x6E), (11, 0x76), (12, 0x66),
    (13, 0x72),
      (0x22, 0x22), (0x5C, 0x5C)].find? fun e => e.1 == b.val with
    | some e => [byte e.2]
    | none => [byte (0x30 + b.val / 64), byte (0x30 + b.val / 8 % 8), byte (0x30 + b.val % 8)]

/-- A byte inside quotes. -/
def inQuotes (quotePath : Bool) (b : Byte) : Bytes :=
    if mustQuote quotePath b then escape b else [b]

/-- A path as git writes it. -/
def quoted (quotePath : Bool) (name : Bytes) : Bytes :=
  if name.any (mustQuote quotePath) then byte 0x22 :: name.flatMap (inQuotes quotePath)
    ++ [byte 0x22]
  else name

/-- The output of `ls-tree -r --name-only`. -/
def listing (quotePath : Bool) (paths : List TreePath) : Bytes :=
  paths.flatMap fun p => quoted quotePath p.bytes ++ [byte 0x0A]

variable {quotePath : Bool}

theorem escape_noReturn (b : Byte) : byte 0x0D ∉ escape b := by
  revert b
  decide +kernel

/-- A quoted name has no carriage return: that one is escaped. -/
theorem quoted_noReturn (name : Bytes) : byte 0x0D ∉ quoted quotePath name := by
  have hplain {b : Byte} (h : mustQuote quotePath b = false) : b ≠ byte 0x0D := by
    rintro rfl
    cases quotePath <;> exact absurd h (by decide)
  unfold quoted
  split
  · intro hmem
    simp only [List.cons_append, List.mem_cons, List.mem_append, List.not_mem_nil, or_false] at hmem
    rcases hmem with hmem | hmem | hmem
    · exact absurd hmem (by decide)
    · obtain ⟨b, -, hb⟩ := List.mem_flatMap.mp hmem
      unfold inQuotes at hb
      split at hb
      · exact escape_noReturn b hb
      · next hq => exact hplain (by simpa using hq) (List.mem_singleton.mp hb).symm
    · exact absurd hmem (by decide)
  · next hnone =>
    intro hmem
    have hq : mustQuote quotePath (byte 0x0D) = false := by
      simp only [List.any_eq_true, not_exists, not_and, Bool.not_eq_true] at hnone
      exact hnone _ hmem
    exact hplain hq rfl

theorem listing_noReturn (paths : List TreePath) : byte 0x0D ∉ listing quotePath paths := by
  intro hmem
  obtain ⟨p, -, hp⟩ := List.mem_flatMap.mp hmem
  rcases List.mem_append.mp hp with hp | hp
  · exact quoted_noReturn _ hp
  · exact absurd (List.mem_singleton.mp hp) (by decide)

/-- The text of a listing has no carriage return. -/
theorem noReturn_listing {paths : List TreePath} {text : PyStr}
    (h : utf8Decode (listing quotePath paths) = some text) : NoReturn text := by
  intro c hc hval
  have hmem := mem_utf8Encode (utf8Encode_utf8Decode h) hc (by omega)
  rw [hval] at hmem
  exact listing_noReturn paths hmem

/-- A listing around one of its paths: lines before it, and what comes after. -/
theorem listing_around {paths : List TreePath} {p : TreePath} (hp : p ∈ paths) :
    ∃ before after, listing quotePath paths = before ++ quoted quotePath p.bytes ++ after
      ∧ (before = [] ∨ ∃ init, before = init ++ [byte 0x0A]) := by
  obtain ⟨l, r, rfl⟩ := List.append_of_mem hp
  refine ⟨listing quotePath l, byte 0x0A :: listing quotePath r, ?_, ?_⟩
  · simp [listing]
  · rcases List.eq_nil_or_concat l with rfl | ⟨init, last, rfl⟩
    · exact .inl rfl
    · refine .inr ⟨listing quotePath init ++ quoted quotePath last.bytes, ?_⟩
      simp [listing]

/-- What needs no quotes stands in a path as it is, wherever it stands. -/
theorem quoted_around {front n back : Bytes} (hn : ∀ b ∈ n, mustQuote quotePath b = false) :
    ∃ front' back', quoted quotePath (front ++ n ++ back) = front' ++ n ++ back' := by
  unfold quoted
  split
  · have hkept : n.flatMap (inQuotes quotePath) = n := by
      rw [List.flatMap_congr (g := fun b => [b])]
      · simp
      · intro b hb
        unfold inQuotes
        rw [hn b hb]
        rfl
    refine ⟨byte 0x22 :: front.flatMap (inQuotes quotePath), back.flatMap (inQuotes quotePath)
      ++ [byte 0x22],
      ?_⟩
    rw [List.flatMap_append, List.flatMap_append, hkept]
    simp
  · exact ⟨front, back, rfl⟩

end SddGov.Git
