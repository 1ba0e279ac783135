import SddGov.Python.JsonRoundTrip

/-!
# The characters of a JSON text

What `json.dumps` writes holds no control character, whatever the strings
inside hold, and it has a UTF-8 form just when every string inside has one.
Printable ASCII text stays printable ASCII and grows to at most twice its
length.
-/

namespace SddGov.Python

/-! ## Text without control characters -/

/-- A character that is no control character is escaped in at most two. -/
theorem escapeChar_spec {c : CodePoint} (h : 0x20 ≤ c.val) :
    (escapeChar c).length ≤ 2 ∧ ∀ d ∈ escapeChar c, 0x20 ≤ d.val ∧ (d = c ∨ d.val < 0x80) := by
  have hlit : ∀ t : PyStr, t.length ≤ 2 → t.all (fun d => 0x20 ≤ d.val && d.val < 0x80) = true →
      t.length ≤ 2 ∧ ∀ d ∈ t, 0x20 ≤ d.val ∧ (d = c ∨ d.val < 0x80) := by
    intro t hl ht
    refine ⟨hl, fun d hd => ?_⟩
    have := List.all_eq_true.mp ht d hd
    simp only [Bool.and_eq_true, decide_eq_true_eq] at this
    exact ⟨this.1, Or.inr this.2⟩
  unfold escapeChar
  repeat' split
  all_goals first
    | (exfalso; omega)
    | exact hlit _ (by decide) (by decide)
    | exact ⟨by simp, by simpa using h⟩

/-- Text the encoder writes without a control character. -/
def NoControl (s : PyStr) : Prop := ∀ c ∈ s, 0x20 ≤ c.val

/-- Escaping at most doubles a text without control characters, and gives it none. -/
theorem flatMap_escapeChar_spec {s : PyStr} (h : NoControl s) :
    (s.flatMap escapeChar).length ≤ 2 * s.length ∧ NoControl (s.flatMap escapeChar)
      ∧ (isAscii s = true → isAscii (s.flatMap escapeChar) = true) := by
  refine ⟨?_, ?_, ?_⟩
  · induction s with
    | nil => simp
    | cons c s ih =>
      have h1 := (escapeChar_spec (h c (List.mem_cons_self ..))).1
      have h2 := ih fun d hd => h d (List.mem_cons_of_mem _ hd)
      rw [List.flatMap_cons, List.length_append, List.length_cons]
      omega
  · intro d hd
    obtain ⟨c, hc, hd⟩ := List.mem_flatMap.mp hd
    exact ((escapeChar_spec (h c hc)).2 d hd).1
  · intro ha
    unfold isAscii at ha ⊢
    rw [List.all_eq_true] at ha ⊢
    intro d hd
    obtain ⟨c, hc, hd⟩ := List.mem_flatMap.mp hd
    rcases ((escapeChar_spec (h c hc)).2 d hd).2 with rfl | hlt
    · exact ha d hc
    · simpa using hlt

/-- Printable text: what the fields of a record are made of. -/
def Plain (s : PyStr) : Prop := ∀ c ∈ s, 0x20 ≤ c.val ∧ c.val < 0x80

theorem Plain.append {s t : PyStr} (hs : Plain s) (ht : Plain t) : Plain (s ++ t) := by
  intro c hc
  rcases List.mem_append.mp hc with h | h
  · exact hs c h
  · exact ht c h

theorem Plain.isAscii {s : PyStr} (h : Plain s) : isAscii s = true := by
  unfold SddGov.Python.isAscii
  rw [List.all_eq_true]
  intro c hc
  simpa using (h c hc).2

theorem Plain.noControl {s : PyStr} (h : Plain s) : NoControl s := fun c hc => (h c hc).1

theorem plain_iff {s : PyStr} : Plain s ↔ NoControl s ∧ isAscii s = true := by
  refine ⟨fun h => ⟨h.noControl, h.isAscii⟩, fun h c hc => ⟨h.1 c hc, ?_⟩⟩
  have := h.2
  unfold isAscii at this
  simpa using List.all_eq_true.mp this c hc

theorem plain_lit {s : String} (h : (lit s).all (fun c => 0x20 ≤ c.val && c.val < 0x80) = true) :
    Plain (lit s) := by
  intro c hc
  simpa using List.all_eq_true.mp h c hc

theorem Plain.stringText {s : PyStr} (h : Plain s) : Plain (stringText s) := by
  have hesc := flatMap_escapeChar_spec h.noControl
  refine Plain.append (Plain.append (plain_lit (by decide)) ?_) (plain_lit (by decide))
  exact plain_iff.mpr ⟨hesc.2.1, hesc.2.2 h.isAscii⟩

theorem length_stringText {s : PyStr} (h : Plain s) :
    (stringText s).length ≤ 2 * s.length + 2 := by
  have hesc := (flatMap_escapeChar_spec h.noControl).1
  have hq : (lit "\"").length = 1 := rfl
  unfold stringText
  rw [List.length_append, List.length_append, hq]
  omega

/-- An escaped character shows no control character. -/
theorem noControl_escapeChar (c : CodePoint) : NoControl (escapeChar c) := by
  by_cases hc : 0x20 ≤ c.val
  · intro d hd
    exact ((escapeChar_spec hc).2 d hd).1
  · have hlit : ∀ t : PyStr, t.all (fun d => 0x20 ≤ d.val) = true → NoControl t := by
      intro t ht d hd
      simpa using List.all_eq_true.mp ht d hd
    have hhex : ∀ n < 16, 0x20 ≤ (hexCp n).val := by decide
    have h16 : c.val / 16 < 16 := by omega
    have hm : c.val % 16 < 16 := Nat.mod_lt _ (by decide)
    unfold escapeChar
    repeat' split
    all_goals first
      | exact hlit _ (by decide)
      | (exfalso; omega)
      | skip
    -- `\u00XX`
    intro d hd
    rcases List.mem_append.mp hd with hd | hd
    · exact hlit (lit "\\u00") (by decide) d hd
    · rcases List.mem_cons.mp hd with rfl | hd
      · exact hhex _ h16
      · obtain rfl := List.mem_singleton.mp hd
        exact hhex _ hm

theorem NoControl.append {s t : PyStr} (hs : NoControl s) (ht : NoControl t) :
    NoControl (s ++ t) := by
  intro c hc
  rcases List.mem_append.mp hc with h | h
  · exact hs c h
  · exact ht c h

theorem noControl_stringText (s : PyStr) : NoControl (stringText s) := by
  have hq : NoControl (lit "\"") := (plain_lit (by decide)).noControl
  refine (hq.append ?_).append hq
  intro d hd
  obtain ⟨c, -, hd⟩ := List.mem_flatMap.mp hd
  exact noControl_escapeChar c d hd

/-! ## Text that can be encoded -/

/-- A text has a UTF-8 form when each of its characters has. -/
theorem utf8Encode_isSome (s : PyStr) :
    (utf8Encode s).isSome = s.all fun c => (utf8EncodeChar c).isSome := by
  induction s with
  | nil => rfl
  | cons c s ih =>
    rw [utf8Encode, List.all_cons, ← ih]
    cases utf8EncodeChar c <;> cases utf8Encode s <;> rfl

theorem utf8Encode_append_isSome (s t : PyStr) :
    (utf8Encode (s ++ t)).isSome = ((utf8Encode s).isSome && (utf8Encode t).isSome) := by
  rw [utf8Encode_isSome, utf8Encode_isSome, utf8Encode_isSome, List.all_append]

/-- Escaping neither makes nor loses a lone surrogate. -/
theorem escapeChar_encodes (c : CodePoint) :
    (escapeChar c).all (fun d => (utf8EncodeChar d).isSome) = (utf8EncodeChar c).isSome := by
  have hlow : c.val < 0x80 → (utf8EncodeChar c).isSome = true := by
    intro h
    unfold utf8EncodeChar
    rw [if_pos h]
    rfl
  have hhex : ∀ n < 16, (utf8EncodeChar (hexCp n)).isSome = true := by decide
  unfold escapeChar
  repeat' split
  all_goals first
    | (rw [hlow (by omega)]; decide)
    | skip
  · next h20 =>
    have hm : c.val % 16 < 16 := Nat.mod_lt _ (by decide)
    rw [hlow (by omega), List.all_append, List.all_cons, List.all_cons,
      hhex _ (by omega), hhex _ hm]
    decide
  · simp

/-- Escaping neither adds nor removes a character without UTF-8 form. -/
theorem stringText_encodes (s : PyStr) :
    (utf8Encode (stringText s)).isSome = (utf8Encode s).isSome := by
  have hq : (utf8Encode (lit "\"")).isSome = true := by decide
  unfold stringText
  rw [utf8Encode_append_isSome, utf8Encode_append_isSome, hq, Bool.true_and, Bool.and_true,
    utf8Encode_isSome, utf8Encode_isSome]
  induction s with
  | nil => rfl
  | cons c s ih => rw [List.flatMap_cons, List.all_append, List.all_cons, escapeChar_encodes, ih]

/-- The characters of the parts are in the joined text. -/
theorem mem_joinComma {t : PyStr} {ts : List PyStr} (h : t ∈ ts) {c : CodePoint} (hc : c ∈ t) :
    c ∈ joinComma ts := by
  induction ts with
  | nil => exact absurd h (by simp)
  | cons u ts ih =>
    cases ts with
    | nil =>
      obtain rfl := List.mem_singleton.mp h
      exact hc
    | cons v ts =>
      rw [joinComma]
      · rcases List.mem_cons.mp h with rfl | h
        · exact List.mem_append_left _ (List.mem_append_left _ hc)
        · exact List.mem_append_right _ (ih h)
      · simp

/-- A string member of a value that has canonical bytes has a UTF-8 form. -/
theorem utf8Encode_member {m : Members} {b : Bytes} (h : canonicalBytes (.obj m) = some b)
    {key s : PyStr} (hm : (key, Json.str s) ∈ m) : (utf8Encode s).isSome = true := by
  obtain ⟨text, htext, henc⟩ := Option.bind_eq_some_iff.mp h
  rw [dumps] at htext
  obtain ⟨ts, hts, rfl⟩ := Option.map_eq_some_iff.mp htext
  obtain ⟨rfl, -⟩ := dumpsMembers_eq hts
  have hmem : memberText (key, stringText s)
      ∈ (sortMembers (m.map fun kv => (kv.1, textOf kv.2))).map memberText := by
    refine List.mem_map.mpr ⟨(key, stringText s), mem_sortMembers.mpr ?_, rfl⟩
    exact List.mem_map.mpr ⟨(key, .str s), hm, rfl⟩
  have hall : (utf8Encode (lit "\x7b" ++ joinComma ((sortMembers
      (m.map fun kv => (kv.1, textOf kv.2))).map memberText) ++ lit "\x7d")).isSome = true := by
    rw [henc]
    rfl
  rw [utf8Encode_isSome, List.all_eq_true] at hall
  rw [← stringText_encodes, utf8Encode_isSome, List.all_eq_true]
  intro c hc
  apply hall
  refine List.mem_append_left _ (List.mem_append_right _ (mem_joinComma hmem ?_))
  exact List.mem_append_right _ hc

/-- What is looked up is a member. -/
theorem mem_of_lookup {key : PyStr} {v : Json} {m : Members} (h : lookup key m = some v) :
    (key, v) ∈ m := by
  induction m with
  | nil => exact absurd h (by simp [lookup])
  | cons kv m ih =>
    obtain ⟨k, w⟩ := kv
    rw [lookup] at h
    split at h
    · next hk =>
      obtain rfl := Option.some.inj h
      exact hk ▸ List.mem_cons_self ..
    · exact List.mem_cons_of_mem _ (ih h)

/-- With different names, a member is the one looked up. -/
theorem lookup_of_mem {m : Members} (h : (keys m).Nodup) {c : PyStr × Json} (hc : c ∈ m) :
    lookup c.1 m = some c.2 := by
  induction m with
  | nil => simp at hc
  | cons d m ih =>
    unfold keys at h ih
    rw [List.map_cons, List.nodup_cons] at h
    rcases List.mem_cons.mp hc with rfl | hc
    · exact if_pos rfl
    · have hne : d.1 ≠ c.1 := by
        intro heq
        exact h.1 (heq ▸ List.mem_map_of_mem hc)
      show (if d.1 = c.1 then some d.2 else lookup c.1 m) = _
      rw [if_neg hne]
      exact ih h.2 hc

/-- A text that is got is that of a member. -/
theorem mem_of_get {key s : PyStr} {m : Members} (h : get key m = .str s) :
    (key, Json.str s) ∈ m := by
  unfold get at h
  cases hl : lookup key m with
  | none =>
    rw [hl] at h
    exact absurd h (by simp)
  | some v =>
    rw [hl] at h
    obtain rfl : v = .str s := h
    exact mem_of_lookup hl

end SddGov.Python
