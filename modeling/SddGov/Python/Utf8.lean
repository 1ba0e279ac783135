import SddGov.Python.Text

/-!
# UTF-8 read back

The strict decoder accepts nothing but encodings (`utf8Encode_utf8Decode`), and
a piece of ASCII in the bytes is a piece of the text (`utf8Encode_around`).
-/

namespace SddGov.Python

/-! ## Decoding -/

/-- What decodes at the front is decoded first. -/
theorem utf8Decode_append {a : Bytes} {s : PyStr} (h : utf8Decode a = some s) (b : Bytes) :
    utf8Decode (a ++ b) = (utf8Decode b).map (s ++ ·) := by
  fun_induction utf8Decode a generalizing s with
  | case1 =>
    obtain rfl := Option.some.inj h
    rw [List.nil_append]
    cases utf8Decode b <;> rfl
  | case2 a rest hone ih =>
    obtain ⟨t, ht, rfl⟩ := Option.map_eq_some_iff.mp h
    rw [List.cons_append, utf8Decode.eq_def]
    simp only [hone, if_true, ih ht, Option.map_map]
    rfl
  | case6 a hone hlead d rest hd htwo ih =>
    obtain ⟨t, ht, rfl⟩ := Option.map_eq_some_iff.mp h
    rw [List.cons_append, List.cons_append, utf8Decode.eq_def]
    simp only [hone, hlead, hd, htwo, if_true, if_false, ih ht, Option.map_map]
    rfl
  | case10 a hone hlead d hd htwo f rest hf hthree =>
    rename_i n hn ih
    obtain ⟨t, ht, rfl⟩ := Option.map_eq_some_iff.mp h
    rw [List.cons_append, List.cons_append, List.cons_append, utf8Decode.eq_def]
    simp only [hone, hlead, hd, htwo, hf, hthree, if_true, if_false, ih ht, Option.map_map]
    rw [if_neg hn]
    rfl
  | case14 a hone hlead d hd htwo f hf hthree g rest hg =>
    rename_i n hn ih
    obtain ⟨t, ht, rfl⟩ := Option.map_eq_some_iff.mp h
    rw [List.cons_append, List.cons_append, List.cons_append, List.cons_append, utf8Decode.eq_def]
    simp only [hone, hlead, hd, htwo, hf, hthree, hg, if_false, ih ht, Option.map_map]
    rw [if_neg hn]
    rfl
  | _ => exact absurd h (by simp)

/-- Only no bytes decode to no text. -/
theorem utf8Decode_eq_nil {a : Bytes} (h : utf8Decode a = some []) : a = [] := by
  fun_induction utf8Decode a with
  | case1 => rfl
  | _ => exact absurd h (by simp)

/-! ## ASCII pieces of an encoded text -/

/-- The strict decoder accepts nothing but encodings. -/
theorem utf8Encode_utf8Decode {b : Bytes} {s : PyStr} (h : utf8Decode b = some s) :
    utf8Encode s = some b := by
  fun_induction utf8Decode b generalizing s with
  | case1 =>
    obtain rfl := Option.some.inj h
    rfl
  | case2 a rest hone ih =>
    obtain ⟨t, ht, rfl⟩ := Option.map_eq_some_iff.mp h
    have hchar : utf8EncodeChar (cp a.val) = some [a] := by
      have ha : (cp a.val).val = a.val := by simp; omega
      unfold utf8EncodeChar
      rw [ha, if_pos hone]
      congr 2
      exact Fin.ext (by simp)
    rw [utf8Encode, hchar, ih ht]
    rfl
  | case6 a hone hlead d rest hd htwo ih =>
    obtain ⟨t, ht, rfl⟩ := Option.map_eq_some_iff.mp h
    have hcont : 0x80 ≤ d.val ∧ d.val ≤ 0xBF := by simpa [isCont] using hd
    have hchar : utf8EncodeChar (cp ((a.val - 0xC0) * 64 + (d.val - 0x80))) = some [a, d] := by
      have hn : (cp ((a.val - 0xC0) * 64 + (d.val - 0x80))).val = (a.val - 0xC0) * 64
        + (d.val - 0x80) := by
        simp; omega
      unfold utf8EncodeChar
      have ha : byte (0xC0 + ((a.val - 0xC0) * 64 + (d.val - 0x80)) / 64) = a :=
        Fin.ext (by simp; omega)
      have hb : byte (0x80 + ((a.val - 0xC0) * 64 + (d.val - 0x80)) % 64) = d :=
        Fin.ext (by simp; omega)
      rw [hn, if_neg (by omega), if_pos (by omega), ha, hb]
    rw [utf8Encode, hchar, ih ht]
    rfl
  | case10 a hone hlead d hd htwo f rest hf hthree =>
    rename_i n hn ih
    obtain ⟨t, ht, rfl⟩ := Option.map_eq_some_iff.mp h
    have hcont : 0x80 ≤ d.val ∧ d.val ≤ 0xBF := by simpa [isCont] using hd
    have hcont' : 0x80 ≤ f.val ∧ f.val ≤ 0xBF := by simpa [isCont] using hf
    have hvalue : n = (a.val - 0xE0) * 4096 + (d.val - 0x80) * 64 + (f.val - 0x80) := rfl
    have hrange : 0x800 ≤ n ∧ ¬(0xD800 ≤ n ∧ n ≤ 0xDFFF) := by
      simpa using hn
    have hchar : utf8EncodeChar (cp n) = some [a, d, f] := by
      have hcp : (cp n).val = n := by rw [cp_val]; omega
      unfold utf8EncodeChar
      have h1 : byte (0xE0 + n / 4096) = a := Fin.ext (by simp; omega)
      have h2 : byte (0x80 + n / 64 % 64) = d := Fin.ext (by simp; omega)
      have h3 : byte (0x80 + n % 64) = f := Fin.ext (by simp; omega)
      rw [hcp, if_neg (by omega), if_neg (by omega), if_neg hrange.2, if_pos (by omega), h1, h2, h3]
    rw [utf8Encode, hchar, ih ht]
    rfl
  | case14 a hone hlead d hd htwo f hf hthree g rest hg =>
    rename_i n hn ih
    obtain ⟨t, ht, rfl⟩ := Option.map_eq_some_iff.mp h
    have hcont : 0x80 ≤ d.val ∧ d.val ≤ 0xBF := by simpa [isCont] using hd
    have hcont' : 0x80 ≤ f.val ∧ f.val ≤ 0xBF := by simpa [isCont] using hf
    have hcont'' : 0x80 ≤ g.val ∧ g.val ≤ 0xBF := by simpa [isCont] using hg
    have hvalue : n = (a.val - 0xF0) * 262144 + (d.val - 0x80) * 4096 + (f.val - 0x80) * 64
        + (g.val - 0x80) := rfl
    have hrange : 0x10000 ≤ n ∧ n ≤ 0x10FFFF := by
      simpa using hn
    have hchar : utf8EncodeChar (cp n) = some [a, d, f, g] := by
      have hcp : (cp n).val = n := by rw [cp_val]; omega
      unfold utf8EncodeChar
      have h1 : byte (0xF0 + n / 262144) = a := Fin.ext (by simp; omega)
      have h2 : byte (0x80 + n / 4096 % 64) = d := Fin.ext (by simp; omega)
      have h3 : byte (0x80 + n / 64 % 64) = f := Fin.ext (by simp; omega)
      have h4 : byte (0x80 + n % 64) = g := Fin.ext (by simp; omega)
      rw [hcp, if_neg (by omega), if_neg (by omega), if_neg (by omega), if_neg (by omega), h1,
        h2, h3, h4]
    rw [utf8Encode, hchar, ih ht]
    rfl
  | _ => exact absurd h (by simp)

/-- An ASCII byte of an encoding is a character of its own. -/
theorem utf8Encode_split {t : PyStr} {a b : Bytes} {x : Byte} (hx : x.val < 0x80)
    (h : utf8Encode t = some (a ++ x :: b)) :
    ∃ s u, t = s ++ cp x.val :: u ∧ utf8Encode s = some a ∧ utf8Encode u = some b := by
  induction t generalizing a with
  | nil => exact absurd (Option.some.inj h) (by simp)
  | cons c t ih =>
    rw [utf8Encode] at h
    cases hchar : utf8EncodeChar c with
    | none => simp [hchar] at h
    | some bs =>
      cases htail : utf8Encode t with
      | none => simp [hchar, htail] at h
      | some rest =>
        simp only [hchar, htail, Option.some.injEq] at h
        rcases List.append_eq_append_iff.mp h with ⟨more, ha, hrest⟩ | ⟨more, hbs, hmore⟩
        · -- the byte comes after the first character
          obtain ⟨s, u, rfl, hs, hu⟩ := ih (htail.trans (congrArg some hrest))
          refine ⟨c :: s, u, rfl, ?_, hu⟩
          rw [utf8Encode, hchar, hs, ha]
        · cases more with
          | nil =>
            rw [List.append_nil] at hbs
            rw [List.nil_append] at hmore
            obtain ⟨s, u, rfl, hs, hu⟩ := ih (a := []) (htail.trans (congrArg some hmore.symm))
            refine ⟨c :: s, u, rfl, ?_, hu⟩
            rw [utf8Encode, hchar, hs, ← hbs]
            exact congrArg some (List.append_nil bs)
          | cons y more =>
            -- the byte lies in the first character, and so it is this character
            obtain ⟨rfl, hb⟩ := List.cons.inj hmore
            have hval : c.val = x.val :=
              byte_lt_mem_encodeChar hchar (by rw [hbs]; simp) hx
            have hone : utf8EncodeChar c = some [byte c.val] := by
              unfold utf8EncodeChar
              rw [if_pos (by omega)]
            rw [hchar] at hone
            obtain rfl := Option.some.inj hone
            obtain ⟨rfl, rfl⟩ : a = [] ∧ more = [] := by
              have hlen := congrArg List.length hbs
              simp only [List.length_cons, List.length_nil, List.length_append] at hlen
              exact ⟨List.length_eq_zero_iff.mp (by omega), List.length_eq_zero_iff.mp (by omega)⟩
            refine ⟨[], t, ?_, rfl, ?_⟩
            · rw [List.nil_append, cp_eq_of_val hval.symm]
            · rw [htail, hb]
              rfl

theorem utf8Encode_eq_nil {t : PyStr} (h : utf8Encode t = some []) : t = [] := by
  have hdecode := utf8Decode_utf8Encode h
  rw [utf8Decode] at hdecode
  exact (Option.some.inj hdecode).symm

/-- An ASCII piece of an encoding is a piece of the text. -/
theorem utf8Encode_around {t : PyStr} {a n b : Bytes} (hn : ∀ x ∈ n, x.val < 0x80)
    (h : utf8Encode t = some (a ++ n ++ b)) (hne : n ≠ []) :
    ∃ s u, t = s ++ n.map (fun x => cp x.val) ++ u ∧ utf8Encode s = some a
    ∧ utf8Encode u = some b := by
  induction n generalizing t a with
  | nil => exact absurd rfl hne
  | cons x n ih =>
    rw [List.append_assoc, List.cons_append] at h
    obtain ⟨s, u, rfl, hs, hu⟩ := utf8Encode_split (hn x (List.mem_cons_self ..)) h
    by_cases hlast : n = []
    · subst hlast
      exact ⟨s, u, by simp, hs, hu⟩
    · obtain ⟨s', u', rfl, hs', hu'⟩ := ih (a := [])
        (fun y hy => hn y (List.mem_cons_of_mem _ hy)) hu hlast
      obtain rfl := utf8Encode_eq_nil hs'
      exact ⟨s, u', by simp, hs, hu'⟩

/-- An ASCII character stands in the encoding as its byte. -/
theorem mem_utf8Encode {t : PyStr} {b : Bytes} {c : CodePoint} (h : utf8Encode t = some b)
    (hc : c ∈ t)
    (hlt : c.val < 0x80) : byte c.val ∈ b := by
  obtain ⟨s, u, rfl⟩ := List.append_of_mem hc
  rw [utf8Encode_append, utf8Encode] at h
  have hone : utf8EncodeChar c = some [byte c.val] := by
    unfold utf8EncodeChar
    rw [if_pos hlt]
  rw [hone] at h
  cases hs : utf8Encode s with
  | none => simp [hs] at h
  | some sb =>
    cases hu : utf8Encode u with
    | none => simp [hs, hu] at h
    | some ub =>
      simp only [hs, hu, Option.bind_some, Option.map_some, Option.some.injEq] at h
      rw [← h]
      simp

end SddGov.Python
