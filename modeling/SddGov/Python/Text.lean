import Mathlib.Data.Fin.Basic
import Mathlib.Tactic.Common

/-!
# Python text and bytes

A Python `str` is a sequence of code points and may hold lone surrogates, so
neither `String` nor `List Char` can carry it: a JSON document can name
`"\ud800"`, and what the programs do with such text (mostly: fail when they
encode it) has to be visible. `PyStr` is the list of code points, `Bytes` the
list of byte values.

The two directions that matter are the strict UTF-8 codec, `utf8Encode` and
`utf8Decode`, and the fact that decoding undoes encoding
(`utf8Decode_utf8Encode`).
-/

namespace SddGov.Python

/-- One element of a Python `str`: any code point, surrogates included. -/
abbrev CodePoint := Fin 0x110000

/-- A Python `str`. -/
abbrev PyStr := List CodePoint

instance : LawfulBEq PyStr := inferInstance

/-- One element of a Python `bytes`. -/
abbrev Byte := Fin 256

/-- A Python `bytes`. -/
abbrev Bytes := List Byte

/-- The code point with number `n` (taken modulo the code space). -/
def cp (n : Nat) : CodePoint := Fin.ofNat 0x110000 n

/-- The byte with value `n` (taken modulo 256). -/
def byte (n : Nat) : Byte := Fin.ofNat 256 n

@[simp] theorem byte_val (n : Nat) : (byte n).val = n % 256 := rfl

@[simp] theorem cp_val (n : Nat) : (cp n).val = n % 0x110000 := rfl

/-- A string literal of the source as Python text. -/
def lit (s : String) : PyStr := s.toList.map fun c => cp c.toNat

/-- Literals are equal as Python text only when they are the same literal. -/
@[simp] theorem lit_inj {a b : String} : lit a = lit b ↔ a = b := by
  constructor
  · intro h
    apply String.toList_injective
    apply (List.map_inj_right _).mp h
    intro c d hcd
    have code_lt : ∀ e : Char, e.toNat < 0x110000 := by
      intro e
      rcases e.valid with he | he
      · exact Nat.lt_trans he (by decide)
      · exact he.2
    have hv := congrArg Fin.val hcd
    simp only [cp_val] at hv
    rw [Nat.mod_eq_of_lt (code_lt c), Nat.mod_eq_of_lt (code_lt d)] at hv
    exact Char.ext (UInt32.toNat_inj.mp hv)
  · rintro rfl
    rfl

/-! ## Whitespace -/

/-- `str.isspace` for one character. -/
def isSpace (c : CodePoint) : Bool :=
  (0x09 ≤ c.val && c.val ≤ 0x0D) || (0x1C ≤ c.val && c.val ≤ 0x20) || c.val == 0x85
    || c.val == 0xA0 || c.val == 0x1680 || (0x2000 ≤ c.val && c.val ≤ 0x200A)
    || c.val == 0x2028 || c.val == 0x2029 || c.val == 0x202F || c.val == 0x205F
    || c.val == 0x3000

/-- `str.strip()`. -/
def strip (s : PyStr) : PyStr :=
  ((s.dropWhile isSpace).reverse.dropWhile isSpace).reverse

/-- `not s.strip()`: the text is empty or all whitespace. -/
def isBlank (s : PyStr) : Bool := s.all isSpace

/-- A blank text is one that stripping leaves empty. -/
theorem isBlank_eq_strip_isEmpty (s : PyStr) : isBlank s = (strip s).isEmpty := by
  have key : (strip s).isEmpty = (s.dropWhile isSpace).all isSpace := by
    unfold strip
    rw [List.isEmpty_reverse]
    generalize s.dropWhile isSpace = t
    have h : (t.reverse.dropWhile isSpace).isEmpty = t.reverse.all isSpace := by
      generalize t.reverse = u
      induction u with
      | nil => rfl
      | cons c u ih =>
        rw [List.dropWhile_cons]
        cases hc : isSpace c <;> simp [hc, ih]
    rw [h, List.all_reverse]
  rw [key]
  clear key
  unfold isBlank
  induction s with
  | nil => rfl
  | cons c s ih =>
    rw [List.dropWhile_cons]
    cases hc : isSpace c
    · simp
    · simpa [hc] using ih

/-! ## UTF-8 -/

/-- The UTF-8 form of one code point; a surrogate has none. -/
def utf8EncodeChar (c : CodePoint) : Option Bytes :=
  if c.val < 0x80 then some [byte c.val]
  else if c.val < 0x800 then some [byte (0xC0 + c.val / 64), byte (0x80 + c.val % 64)]
  else if 0xD800 ≤ c.val ∧ c.val ≤ 0xDFFF then none
  else if c.val < 0x10000 then
    some [byte (0xE0 + c.val / 4096), byte (0x80 + c.val / 64 % 64), byte (0x80 + c.val % 64)]
  else
    some [byte (0xF0 + c.val / 262144), byte (0x80 + c.val / 4096 % 64),
      byte (0x80 + c.val / 64 % 64), byte (0x80 + c.val % 64)]

/-- `s.encode("utf-8")`; `none` is the `UnicodeEncodeError` of a lone surrogate. -/
def utf8Encode : PyStr → Option Bytes
  | [] => some []
  | c :: s =>
    match utf8EncodeChar c, utf8Encode s with
    | some b, some bs => some (b ++ bs)
    | _, _ => none

/-- A UTF-8 continuation byte. -/
def isCont (b : Byte) : Bool := 0x80 ≤ b.val && b.val ≤ 0xBF

/-- `b.decode("utf-8")`, strict: no overlong form, no surrogate, nothing past
U+10FFFF; `none` is the `UnicodeDecodeError`. -/
def utf8Decode : Bytes → Option PyStr
  | [] => some []
  | a :: rest =>
    if a.val < 0x80 then (utf8Decode rest).map (cp a.val :: ·)
    else if a.val < 0xC2 then none
    else match rest with
      | [] => none
      | b :: rest =>
        if !isCont b then none
        else if a.val < 0xE0 then
          (utf8Decode rest).map (cp ((a.val - 0xC0) * 64 + (b.val - 0x80)) :: ·)
        else match rest with
          | [] => none
          | c :: rest =>
            if !isCont c then none
            else if a.val < 0xF0 then
              let n := (a.val - 0xE0) * 4096 + (b.val - 0x80) * 64 + (c.val - 0x80)
              if n < 0x800 || (0xD800 ≤ n && n ≤ 0xDFFF) then none
              else (utf8Decode rest).map (cp n :: ·)
            else match rest with
              | [] => none
              | d :: rest =>
                if !isCont d then none
                else
                  let n := (a.val - 0xF0) * 262144 + (b.val - 0x80) * 4096
                    + (c.val - 0x80) * 64 + (d.val - 0x80)
                  if n < 0x10000 || 0x10FFFF < n then none
                  else (utf8Decode rest).map (cp n :: ·)

theorem cp_eq_of_val {n : Nat} {c : CodePoint} (h : n = c.val) : cp n = c := by
  subst h
  exact Fin.ext (Nat.mod_eq_of_lt c.isLt)

/-- Decoding reads back the character whose encoding stands at the front. -/
theorem utf8Decode_encodeChar_append {c : CodePoint} {b : Bytes} (rest : Bytes)
    (h : utf8EncodeChar c = some b) :
    utf8Decode (b ++ rest) = (utf8Decode rest).map (c :: ·) := by
  have hc := c.isLt
  unfold utf8EncodeChar at h
  split at h
  · next h1 =>
    obtain rfl := Option.some.inj h
    have hv : (byte c.val).val = c.val := by simp; omega
    rw [List.singleton_append, utf8Decode.eq_def]
    dsimp only
    rw [if_pos (by rw [hv]; exact h1), hv, cp_eq_of_val rfl]
  split at h
  · next h1 h2 =>
    obtain rfl := Option.some.inj h
    have ha : (byte (0xC0 + c.val / 64)).val = 0xC0 + c.val / 64 := by simp; omega
    have hb : (byte (0x80 + c.val % 64)).val = 0x80 + c.val % 64 := by simp; omega
    have hcont : isCont (byte (0x80 + c.val % 64)) = true := by
      unfold isCont; rw [hb]; simp; omega
    simp only [List.cons_append, List.nil_append]
    rw [utf8Decode.eq_def]
    dsimp only
    rw [ha, if_neg (by omega), if_neg (by omega)]
    simp only [hcont, hb, Bool.not_true, Bool.false_eq_true, if_false]
    have hn : (0xC0 + c.val / 64 - 0xC0) * 64 + (0x80 + c.val % 64 - 0x80) = c.val := by omega
    rw [if_pos (by omega), hn, cp_eq_of_val rfl]
  split at h
  · exact absurd h (by simp)
  split at h
  · next h1 h2 h3 h4 =>
    obtain rfl := Option.some.inj h
    have ha : (byte (0xE0 + c.val / 4096)).val = 0xE0 + c.val / 4096 := by simp; omega
    have hb : (byte (0x80 + c.val / 64 % 64)).val = 0x80 + c.val / 64 % 64 := by simp; omega
    have hd : (byte (0x80 + c.val % 64)).val = 0x80 + c.val % 64 := by simp; omega
    have hcb : isCont (byte (0x80 + c.val / 64 % 64)) = true := by
      unfold isCont; rw [hb]; simp; omega
    have hcd : isCont (byte (0x80 + c.val % 64)) = true := by
      unfold isCont; rw [hd]; simp; omega
    simp only [List.cons_append, List.nil_append]
    rw [utf8Decode.eq_def]
    dsimp only
    rw [ha, if_neg (by omega), if_neg (by omega)]
    simp only [hcb, hcd, hb, hd, Bool.not_true, Bool.false_eq_true, if_false]
    rw [if_neg (by omega), if_pos (by omega)]
    have hn : (0xE0 + c.val / 4096 - 0xE0) * 4096 + (0x80 + c.val / 64 % 64 - 0x80) * 64
        + (0x80 + c.val % 64 - 0x80) = c.val := by omega
    rw [hn, if_neg (by simp; omega), cp_eq_of_val rfl]
  · next h1 h2 h3 h4 =>
    obtain rfl := Option.some.inj h
    have ha : (byte (0xF0 + c.val / 262144)).val = 0xF0 + c.val / 262144 := by simp; omega
    have hb : (byte (0x80 + c.val / 4096 % 64)).val = 0x80 + c.val / 4096 % 64 := by
      simp; omega
    have he : (byte (0x80 + c.val / 64 % 64)).val = 0x80 + c.val / 64 % 64 := by simp; omega
    have hd : (byte (0x80 + c.val % 64)).val = 0x80 + c.val % 64 := by simp; omega
    have hcb : isCont (byte (0x80 + c.val / 4096 % 64)) = true := by
      unfold isCont; rw [hb]; simp; omega
    have hce : isCont (byte (0x80 + c.val / 64 % 64)) = true := by
      unfold isCont; rw [he]; simp; omega
    have hcd : isCont (byte (0x80 + c.val % 64)) = true := by
      unfold isCont; rw [hd]; simp; omega
    simp only [List.cons_append, List.nil_append]
    rw [utf8Decode.eq_def]
    dsimp only
    rw [ha, if_neg (by omega), if_neg (by omega)]
    simp only [hcb, hce, hcd, hb, he, hd, Bool.not_true, Bool.false_eq_true, if_false]
    rw [if_neg (by omega), if_neg (by omega)]
    have hn : (0xF0 + c.val / 262144 - 0xF0) * 262144 + (0x80 + c.val / 4096 % 64 - 0x80) * 4096
        + (0x80 + c.val / 64 % 64 - 0x80) * 64 + (0x80 + c.val % 64 - 0x80) = c.val := by omega
    rw [hn, if_neg (by simp; omega), cp_eq_of_val rfl]

/-- The strict decoder undoes the encoder. -/
theorem utf8Decode_utf8Encode : ∀ {s : PyStr} {b : Bytes},
    utf8Encode s = some b → utf8Decode b = some s
  | [], b, h => by
    obtain rfl := Option.some.inj h
    rfl
  | c :: s, b, h => by
    rw [utf8Encode] at h
    cases h1 : utf8EncodeChar c with
    | none => simp [h1] at h
    | some b1 =>
      cases h2 : utf8Encode s with
      | none => simp [h1, h2] at h
      | some b2 =>
        simp only [h1, h2, Option.some.injEq] at h
        subst h
        rw [utf8Decode_encodeChar_append b2 h1, utf8Decode_utf8Encode h2]
        rfl

/-- Encoding is injective: the text can be read back. -/
theorem utf8Encode_inj {s t : PyStr} {b : Bytes}
    (hs : utf8Encode s = some b) (ht : utf8Encode t = some b) : s = t := by
  have h := utf8Decode_utf8Encode hs
  rw [utf8Decode_utf8Encode ht] at h
  exact (Option.some.inj h).symm

theorem utf8Encode_append (s t : PyStr) :
    utf8Encode (s ++ t) = (utf8Encode s).bind fun a => (utf8Encode t).map (a ++ ·) := by
  induction s with
  | nil => cases h : utf8Encode t <;> simp [utf8Encode, h]
  | cons c s ih =>
    rw [List.cons_append, utf8Encode, ih, utf8Encode]
    cases utf8EncodeChar c <;> cases utf8Encode s <;> cases utf8Encode t <;> simp

/-! ## ASCII text -/

/-- Every character is ASCII, so the encoding is the text itself, byte for character. -/
def isAscii (s : PyStr) : Bool := s.all fun c => c.val < 0x80

theorem utf8Encode_ascii {s : PyStr} (h : isAscii s = true) :
    utf8Encode s = some (s.map fun c => byte c.val) := by
  induction s with
  | nil => rfl
  | cons c s ih =>
    unfold isAscii at h ih
    simp only [List.all_cons, Bool.and_eq_true, decide_eq_true_eq] at h
    rw [utf8Encode, ih h.2, utf8EncodeChar, if_pos h.1]
    rfl

/-- A character that encodes to a byte `b` below 0x80 anywhere is that very character. -/
theorem byte_lt_mem_encodeChar {c : CodePoint} {bs : Bytes} {b : Byte}
    (h : utf8EncodeChar c = some bs) (hb : b ∈ bs) (hlt : b.val < 0x80) : c.val = b.val := by
  have hc := c.isLt
  unfold utf8EncodeChar at h
  split at h
  · obtain rfl := Option.some.inj h
    rw [List.mem_singleton.mp hb]
    simp; omega
  split at h
  · obtain rfl := Option.some.inj h
    simp only [List.mem_cons, List.not_mem_nil, or_false] at hb
    rcases hb with rfl | rfl <;> simp at hlt <;> omega
  split at h
  · exact absurd h (by simp)
  split at h
  · obtain rfl := Option.some.inj h
    simp only [List.mem_cons, List.not_mem_nil, or_false] at hb
    rcases hb with rfl | rfl | rfl <;> simp at hlt <;> omega
  · obtain rfl := Option.some.inj h
    simp only [List.mem_cons, List.not_mem_nil, or_false] at hb
    rcases hb with rfl | rfl | rfl | rfl <;> simp at hlt <;> omega

/-- ASCII bytes of an encoding come from the ASCII characters of the text. -/
theorem byte_lt_mem_utf8Encode : ∀ {s : PyStr} {bs : Bytes} {b : Byte},
    utf8Encode s = some bs → b ∈ bs → b.val < 0x80 → ∃ c ∈ s, c.val = b.val
  | [], bs, b, h, hb, _ => by
    obtain rfl := Option.some.inj h
    exact absurd hb (by simp)
  | c :: s, bs, b, h, hb, hlt => by
    rw [utf8Encode] at h
    cases h1 : utf8EncodeChar c with
    | none => simp [h1] at h
    | some b1 =>
      cases h2 : utf8Encode s with
      | none => simp [h1, h2] at h
      | some b2 =>
        simp only [h1, h2, Option.some.injEq] at h
        subst h
        rcases List.mem_append.mp hb with hb | hb
        · exact ⟨c, List.mem_cons_self .., byte_lt_mem_encodeChar h1 hb hlt⟩
        · obtain ⟨d, hd, hv⟩ := byte_lt_mem_utf8Encode h2 hb hlt
          exact ⟨d, List.mem_cons_of_mem _ hd, hv⟩

end SddGov.Python
