import SddGov.Python.Utf8

/-!
# The incremental UTF-8 decoder

`codecs.getincrementaldecoder("utf-8")("strict")` decodes what is complete and
keeps the rest for the next call. What it keeps is the beginning of a character,
so a piece that was decoded and a piece that was kept stand for the bytes they
came from (`utf8Decode_of_decodePart`), and what it refuses stays refused
whatever follows (`utf8Decode_of_decodePart_none`).
-/

namespace SddGov.Python

/-- A second byte that can follow the first one of a character of several bytes. -/
def fitsLead (a b : Byte) : Bool :=
  isCont b && !(a.val == 0xE0 && b.val < 0xA0) && !(a.val == 0xED && 0xA0 ≤ b.val)
    && !(a.val == 0xF0 && b.val < 0x90) && !(a.val == 0xF4 && 0x90 ≤ b.val)

/-- `decode(data, final=False)`: the text of the complete characters and the bytes that are kept;
`none` is the `UnicodeDecodeError`. -/
def utf8DecodePart : Bytes → Option (PyStr × Bytes)
  | [] => some ([], [])
  | a :: rest =>
    if a.val < 0x80 then (utf8DecodePart rest).map (Prod.map (cp a.val :: ·) id)
    else if a.val < 0xC2 || 0xF4 < a.val then none
    else match rest with
      | [] => some ([], [a])
      | b :: rest =>
        if !fitsLead a b then none
        else if a.val < 0xE0 then
          (utf8DecodePart rest).map (Prod.map (cp ((a.val - 0xC0) * 64 + (b.val - 0x80)) :: ·) id)
        else match rest with
          | [] => some ([], [a, b])
          | c :: rest =>
            if !isCont c then none
            else if a.val < 0xF0 then
              (utf8DecodePart rest).map
                (Prod.map (cp ((a.val - 0xE0) * 4096 + (b.val - 0x80) * 64 + (c.val - 0x80)) :: ·)
                  id)
            else match rest with
              | [] => some ([], [a, b, c])
              | d :: rest =>
                if !isCont d then none
                else
                  (utf8DecodePart rest).map
                    (Prod.map
                      (cp ((a.val - 0xF0) * 262144 + (b.val - 0x80) * 4096 + (c.val - 0x80) * 64
                      + (d.val - 0x80)) :: ·) id)

/-! ## Characters of several bytes -/

theorem fitsLead_cont {a b : Byte} (h : fitsLead a b = true) : isCont b = true := by
  unfold fitsLead at h
  simp only [Bool.and_eq_true] at h
  exact h.1.1.1.1

/-- The second byte decides whether three bytes are a character. -/
theorem three_range {a b c : Byte} (hlow : 0xE0 ≤ a.val) (hhigh : a.val < 0xF0)
    (hb : isCont b = true)
    (hc : isCont c = true) :
    (((a.val - 0xE0) * 4096 + (b.val - 0x80) * 64 + (c.val - 0x80) < 0x800
      || (0xD800 ≤ (a.val - 0xE0) * 4096 + (b.val - 0x80) * 64 + (c.val - 0x80)
        && (a.val - 0xE0) * 4096 + (b.val - 0x80) * 64 + (c.val - 0x80) ≤ 0xDFFF)) = true)
      ↔ fitsLead a b = false := by
  have hb' : 0x80 ≤ b.val ∧ b.val ≤ 0xBF := by simpa [isCont] using hb
  have hc' : 0x80 ≤ c.val ∧ c.val ≤ 0xBF := by simpa [isCont] using hc
  unfold fitsLead
  rw [hb]
  simp only [Bool.or_eq_true, Bool.and_eq_true, decide_eq_true_eq, Bool.true_and,
    Bool.and_eq_false_iff,
    Bool.not_eq_false', beq_iff_eq]
  omega

/-- The second byte decides whether four bytes are a character. -/
theorem four_range {a b c d : Byte} (hlow : 0xF0 ≤ a.val) (hhigh : a.val ≤ 0xF4)
    (hb : isCont b = true)
    (hc : isCont c = true) (hd : isCont d = true) :
    (((a.val - 0xF0) * 262144 + (b.val - 0x80) * 4096 + (c.val - 0x80) * 64
      + (d.val - 0x80) < 0x10000
      || 0x10FFFF < (a.val - 0xF0) * 262144 + (b.val - 0x80) * 4096 + (c.val - 0x80) * 64
        + (d.val - 0x80)) = true)
      ↔ fitsLead a b = false := by
  have hb' : 0x80 ≤ b.val ∧ b.val ≤ 0xBF := by simpa [isCont] using hb
  have hc' : 0x80 ≤ c.val ∧ c.val ≤ 0xBF := by simpa [isCont] using hc
  have hd' : 0x80 ≤ d.val ∧ d.val ≤ 0xBF := by simpa [isCont] using hd
  unfold fitsLead
  rw [hb]
  simp only [Bool.or_eq_true, Bool.and_eq_true, decide_eq_true_eq, Bool.true_and,
    Bool.and_eq_false_iff,
    Bool.not_eq_false', beq_iff_eq]
  omega

/-- A character of three bytes at the front. -/
theorem utf8Decode_three {a b c : Byte} (rest : Bytes) (hlow : 0xE0 ≤ a.val) (hhigh : a.val < 0xF0)
    (hb : fitsLead a b = true) (hc : isCont c = true) :
    utf8Decode (a :: b :: c :: rest)
      = (utf8Decode rest).map
        (cp ((a.val - 0xE0) * 4096 + (b.val - 0x80) * 64 + (c.val - 0x80)) :: ·) := by
  have hcont := fitsLead_cont hb
  have hrange := (three_range hlow hhigh hcont hc).not.mpr (by simp [hb])
  rw [utf8Decode.eq_def]
  dsimp only
  rw [if_neg (by omega), if_neg (by omega), if_neg (by simp [hcont]), if_neg (by omega),
    if_neg (by simp [hc]), if_pos hhigh, if_neg hrange]

/-- A character of four bytes at the front. -/
theorem utf8Decode_four {a b c d : Byte} (rest : Bytes) (hlow : 0xF0 ≤ a.val) (hhigh : a.val ≤ 0xF4)
    (hb : fitsLead a b = true) (hc : isCont c = true) (hd : isCont d = true) :
    utf8Decode (a :: b :: c :: d :: rest)
      = (utf8Decode rest).map
        (cp ((a.val - 0xF0) * 262144 + (b.val - 0x80) * 4096 + (c.val - 0x80) * 64 + (d.val - 0x80))
          :: ·) := by
  have hcont := fitsLead_cont hb
  have hrange := (four_range hlow hhigh hcont hc hd).not.mpr (by simp [hb])
  rw [utf8Decode.eq_def]
  dsimp only
  rw [if_neg (by omega), if_neg (by omega), if_neg (by simp [hcont]), if_neg (by omega),
    if_neg (by simp [hc]), if_neg (by omega), if_neg (by simp [hd]), if_neg hrange]

/-- No character starts so, whatever follows. -/
theorem utf8Decode_refused {a : Byte} {rest : Bytes} (hmany : ¬a.val < 0x80)
    (h : (a.val < 0xC2 || 0xF4 < a.val) = true ∨ ∃ b more, rest = b :: more
      ∧ fitsLead a b = false) :
    utf8Decode (a :: rest) = none := by
  rw [utf8Decode.eq_def]
  dsimp only
  rw [if_neg hmany]
  by_cases hlead : a.val < 0xC2
  · rw [if_pos hlead]
  rw [if_neg hlead]
  cases rest with
  | nil => rfl
  | cons b rest =>
    dsimp only
    by_cases hb : isCont b = true
    · rw [if_neg (by simp [hb])]
      have hb' : 0x80 ≤ b.val ∧ b.val ≤ 0xBF := by simpa [isCont] using hb
      -- the second byte does not fit a lead of three or four bytes, or the lead is too great
      have hcase : 0xF4 < a.val ∨ fitsLead a b = false := by
        rcases h with h | ⟨_, _, heq, hfits⟩
        · simp only [Bool.or_eq_true, decide_eq_true_eq] at h
          exact .inl (by omega)
        · obtain ⟨rfl, rfl⟩ := List.cons.inj heq
          exact .inr hfits
      have hthree : ¬a.val < 0xE0 := by
        rcases hcase with hcase | hcase
        · omega
        · unfold fitsLead at hcase
          rw [hb] at hcase
          simp only [Bool.true_and, Bool.and_eq_false_iff, Bool.not_eq_false', Bool.and_eq_true,
            beq_iff_eq, decide_eq_true_eq] at hcase
          omega
      rw [if_neg hthree]
      cases rest with
      | nil => rfl
      | cons c rest =>
        dsimp only
        by_cases hc : isCont c = true
        · rw [if_neg (by simp [hc])]
          by_cases hfour : a.val < 0xF0
          · have hfits : fitsLead a b = false := hcase.resolve_left (by omega)
            rw [if_pos hfour, if_pos ((three_range (by omega) hfour hb hc).mpr hfits)]
          · rw [if_neg hfour]
            cases rest with
            | nil => rfl
            | cons d rest =>
              dsimp only
              by_cases hd : isCont d = true
              · rw [if_neg (by simp [hd]), if_pos]
                rcases hcase with hcase | hfits
                · simp only [Bool.or_eq_true, decide_eq_true_eq]
                  omega
                · by_cases hhigh : a.val ≤ 0xF4
                  · exact (four_range (by omega) hhigh hb hc hd).mpr hfits
                  · simp only [Bool.or_eq_true, decide_eq_true_eq]
                    omega
              · rw [if_pos (by simp [hd])]
        · rw [if_pos (by simp [hc])]
    · rw [if_pos (by simp [hb])]

/-! ## What is decoded and what is kept -/

/-- The text so far and the bytes that were kept stand for the bytes they came from. -/
theorem utf8Decode_of_decodePart {a p : Bytes} {s : PyStr} (h : utf8DecodePart a = some (s, p))
    (b : Bytes) :
    utf8Decode (a ++ b) = (utf8Decode (p ++ b)).map (s ++ ·) := by
  fun_induction utf8DecodePart a generalizing s p with
  | case1 =>
    obtain ⟨rfl, rfl⟩ := Prod.mk.inj (Option.some.inj h)
    simp
  | case2 a rest hone ih =>
    obtain ⟨⟨t, q⟩, ht, heq⟩ := Option.map_eq_some_iff.mp h
    obtain ⟨rfl, rfl⟩ := Prod.mk.inj heq
    rw [List.cons_append, utf8Decode.eq_def]
    simp only [hone, if_true, ih ht, Option.map_map]
    rfl
  | case6 a hone hlead d rest hd htwo ih =>
    obtain ⟨⟨t, q⟩, ht, heq⟩ := Option.map_eq_some_iff.mp h
    obtain ⟨rfl, rfl⟩ := Prod.mk.inj heq
    have hfits : fitsLead a d = true := by simpa using hd
    have hlow : ¬a.val < 0xC2 := by
      simp only [Bool.or_eq_true, decide_eq_true_eq] at hlead
      omega
    rw [List.cons_append, List.cons_append, utf8Decode.eq_def]
    simp only [hone, hlow, fitsLead_cont hfits, htwo, Bool.not_true, Bool.false_eq_true,
      if_true, if_false,
      ih ht, Option.map_map]
    rfl
  | case9 a hone hlead d hd htwo f rest hf hthree ih =>
    obtain ⟨⟨t, q⟩, ht, heq⟩ := Option.map_eq_some_iff.mp h
    obtain ⟨rfl, rfl⟩ := Prod.mk.inj heq
    rw [List.cons_append, List.cons_append, List.cons_append,
      utf8Decode_three _ (by omega) hthree (by simpa using hd) (by simpa using hf), ih ht,
        Option.map_map]
    rfl
  | case12 a hone hlead d hd htwo f hf hthree g rest hg ih =>
    obtain ⟨⟨t, q⟩, ht, heq⟩ := Option.map_eq_some_iff.mp h
    obtain ⟨rfl, rfl⟩ := Prod.mk.inj heq
    have hhigh : a.val ≤ 0xF4 := by
      simp only [Bool.or_eq_true, decide_eq_true_eq] at hlead
      omega
    rw [List.cons_append, List.cons_append, List.cons_append, List.cons_append,
      utf8Decode_four _ (by omega) hhigh (by simpa using hd) (by simpa using hf)
        (by simpa using hg), ih ht,
      Option.map_map]
    rfl
  | case4 | case7 | case10 =>
    -- all of the bytes are kept
    obtain ⟨rfl, rfl⟩ := Prod.mk.inj (Option.some.inj h)
    simp
  | _ => exact absurd h (by simp)

/-- What is refused in the middle of the bytes is refused, whatever follows. -/
theorem utf8Decode_of_decodePart_none {a : Bytes} (h : utf8DecodePart a = none) (b : Bytes) :
    utf8Decode (a ++ b) = none := by
  fun_induction utf8DecodePart a with
  | case2 a rest hone ih =>
    rw [List.cons_append, utf8Decode.eq_def]
    simp only [hone, if_true, ih (Option.map_eq_none_iff.mp h), Option.map_none]
  | case3 a rest hone hlead => exact utf8Decode_refused hone (.inl hlead)
  | case5 a hone hlead d rest hd =>
    exact utf8Decode_refused hone (.inr ⟨d, rest ++ b, rfl, by simpa using hd⟩)
  | case6 a hone hlead d rest hd htwo ih =>
    have hfits : fitsLead a d = true := by simpa using hd
    have hlow : ¬a.val < 0xC2 := by
      simp only [Bool.or_eq_true, decide_eq_true_eq] at hlead
      omega
    rw [List.cons_append, List.cons_append, utf8Decode.eq_def]
    simp only [hone, hlow, fitsLead_cont hfits, htwo, Bool.not_true, Bool.false_eq_true,
      if_true, if_false,
      ih (Option.map_eq_none_iff.mp h), Option.map_none]
  | case8 a hone hlead d hd htwo f rest hf =>
    have hcont := fitsLead_cont (by simpa using hd : fitsLead a d = true)
    have hlow : ¬a.val < 0xC2 := by
      simp only [Bool.or_eq_true, decide_eq_true_eq] at hlead
      omega
    rw [List.cons_append, List.cons_append, List.cons_append, utf8Decode.eq_def]
    simp only [hone, hlow, hcont, htwo, hf, Bool.not_true, Bool.false_eq_true, if_true, if_false]
  | case9 a hone hlead d hd htwo f rest hf hthree ih =>
    rw [List.cons_append, List.cons_append, List.cons_append,
      utf8Decode_three _ (by omega) hthree (by simpa using hd) (by simpa using hf),
      ih (Option.map_eq_none_iff.mp h)]
    rfl
  | case11 a hone hlead d hd htwo f hf hthree g rest hg =>
    have hcont := fitsLead_cont (by simpa using hd : fitsLead a d = true)
    have hlow : ¬a.val < 0xC2 := by
      simp only [Bool.or_eq_true, decide_eq_true_eq] at hlead
      omega
    rw [List.cons_append, List.cons_append, List.cons_append, List.cons_append, utf8Decode.eq_def]
    simp only [hone, hlow, hcont, htwo, hf, hthree, hg, Bool.not_true, Bool.false_eq_true,
      if_true, if_false]
  | case12 a hone hlead d hd htwo f hf hthree g rest hg ih =>
    have hhigh : a.val ≤ 0xF4 := by
      simp only [Bool.or_eq_true, decide_eq_true_eq] at hlead
      omega
    rw [List.cons_append, List.cons_append, List.cons_append, List.cons_append,
      utf8Decode_four _ (by omega) hhigh (by simpa using hd) (by simpa using hf)
        (by simpa using hg),
      ih (Option.map_eq_none_iff.mp h)]
    rfl
  | _ => exact absurd h (by simp)

/-- The bytes that are kept are no characters yet. -/
theorem utf8Decode_kept {a p : Bytes} {s : PyStr} (h : utf8DecodePart a = some (s, p)) :
    p = [] ∨ utf8Decode p = none := by
  fun_induction utf8DecodePart a generalizing s p with
  | case1 =>
    obtain ⟨-, rfl⟩ := Prod.mk.inj (Option.some.inj h)
    exact .inl rfl
  | case2 a rest hone ih | case6 a hone hlead d rest hd htwo ih
      | case9 a hone hlead d hd htwo f rest hf hthree ih
    | case12 a hone hlead d hd htwo f hf hthree g rest hg ih =>
    obtain ⟨⟨t, q⟩, ht, heq⟩ := Option.map_eq_some_iff.mp h
    obtain ⟨-, rfl⟩ := Prod.mk.inj heq
    exact ih ht
  | case4 a hone hlead =>
    obtain ⟨-, rfl⟩ := Prod.mk.inj (Option.some.inj h)
    rw [utf8Decode.eq_def]
    simp [hone]
  | case7 a hone hlead d hd htwo =>
    obtain ⟨-, rfl⟩ := Prod.mk.inj (Option.some.inj h)
    rw [utf8Decode.eq_def]
    simp [hone, htwo]
  | case10 a hone hlead d hd htwo f hf hthree =>
    obtain ⟨-, rfl⟩ := Prod.mk.inj (Option.some.inj h)
    rw [utf8Decode.eq_def]
    simp [hone, htwo, hthree]
  | _ => exact absurd h (by simp)

end SddGov.Python
