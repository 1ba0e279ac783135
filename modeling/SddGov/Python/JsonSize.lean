import Mathlib.Data.ENat.Basic
import SddGov.Python.DecimalNumber

/-!
# The size of a canonical text

`jsonSize v` is the number of bytes of the canonical text of `v`, and `⊤` where
there is none: a value that cannot be printed or encoded fits into no bound.
Sizes add up, so the size of an object is the sum over its members in whatever
order they are written (`jsonSize_obj`).
-/

namespace SddGov.Python

/-! ## Text -/

/-- The bytes of one character; a surrogate has no encoding. -/
def charSize (c : CodePoint) : ℕ∞ :=
  match utf8EncodeChar c with
  | some b => b.length
  | none => ⊤

/-- The bytes of a text. -/
def textSize (s : PyStr) : ℕ∞ := (s.map charSize).sum

theorem textSize_append (s t : PyStr) : textSize (s ++ t) = textSize s + textSize t := by
  unfold textSize
  rw [List.map_append, List.sum_append]

theorem textSize_cons (c : CodePoint) (s : PyStr) :
    textSize (c :: s) = charSize c + textSize s := by
  unfold textSize
  rw [List.map_cons, List.sum_cons]

/-- The size is the length of the encoding. -/
theorem textSize_eq (s : PyStr) :
    textSize s = match utf8Encode s with
      | some b => (b.length : ℕ∞)
      | none => ⊤ := by
  induction s with
  | nil => rfl
  | cons c s ih =>
    rw [textSize_cons, ih, utf8Encode, charSize]
    cases utf8EncodeChar c <;> cases utf8Encode s <;> simp

/-- A text fits exactly where its encoding does. -/
theorem textSize_le (s : PyStr) (n : Nat) :
    textSize s ≤ n ↔ ∃ b, utf8Encode s = some b ∧ b.length ≤ n := by
  rw [textSize_eq]
  cases utf8Encode s <;> simp

theorem charSize_plain {c : CodePoint} (h : isPlain c = true) : charSize c = 1 := by
  unfold isPlain at h
  simp only [Bool.and_eq_true, decide_eq_true_eq] at h
  unfold charSize utf8EncodeChar
  rw [if_pos (by omega)]
  rfl

theorem escapeChar_plain {c : CodePoint} (h : isPlain c = true) : escapeChar c = [c] := by
  unfold isPlain at h
  simp only [Bool.and_eq_true, decide_eq_true_eq, bne_iff_ne] at h
  unfold escapeChar
  repeat rw [if_neg (by omega)]

theorem textSize_plain {s : PyStr} (h : ∀ c ∈ s, isPlain c = true) : textSize s = s.length := by
  induction s with
  | nil => rfl
  | cons c s ih =>
    rw [textSize_cons, charSize_plain (h c (List.mem_cons_self ..)), ih fun d hd =>
      h d (List.mem_cons_of_mem _ hd),
      List.length_cons, Nat.cast_add, Nat.cast_one, add_comm]

/-- A plain text is as long as it is, between its quotes. -/
theorem textSize_stringText {s : PyStr} (h : ∀ c ∈ s, isPlain c = true) :
    textSize (stringText s) = (s.length + 2 : Nat) := by
  have hbody : s.flatMap escapeChar = s := by
    induction s with
    | nil => rfl
    | cons c s ih =>
      rw [List.flatMap_cons, escapeChar_plain (h c (List.mem_cons_self ..)),
        ih fun d hd => h d (List.mem_cons_of_mem _ hd)]
      rfl
  have hquote : textSize (lit "\"") = 1 := rfl
  unfold stringText
  rw [hbody, textSize_append, textSize_append, textSize_plain h, hquote, Nat.cast_add]
  rw [add_comm 1, add_assoc]
  rfl

/-! ## Values -/

/-- The bytes of the canonical text. -/
def jsonSize (v : Json) : ℕ∞ :=
  match dumps v with
  | some t => textSize t
  | none => ⊤

/-- A value fits exactly where its canonical bytes do. -/
theorem jsonSize_le (v : Json) (n : Nat) :
    jsonSize v ≤ n ↔ ∃ b, canonicalBytes v = some b ∧ b.length ≤ n := by
  unfold jsonSize canonicalBytes
  cases dumps v with
  | none => simp
  | some t => exact textSize_le t n

theorem jsonSize_eq_top {v : Json} (h : canonicalBytes v = none) : jsonSize v = ⊤ := by
  unfold canonicalBytes at h
  unfold jsonSize
  cases ht : dumps v with
  | none => rfl
  | some t =>
    rw [ht, Option.bind_some] at h
    simp [textSize_eq, h]

@[simp] theorem jsonSize_null : jsonSize .null = 4 := by
  unfold jsonSize
  rw [dumps]
  rfl

@[simp] theorem jsonSize_true : jsonSize (.bool true) = 4 := by
  unfold jsonSize
  rw [dumps]
  rfl

@[simp] theorem jsonSize_false : jsonSize (.bool false) = 5 := by
  unfold jsonSize
  rw [dumps]
  rfl

theorem jsonSize_str (s : PyStr) : jsonSize (.str s) = textSize (stringText s) := by
  unfold jsonSize
  rw [dumps]

theorem jsonSize_plain {s : PyStr} (h : s.all isPlain = true) :
    jsonSize (.str s) = (s.length + 2 : Nat) := by
  rw [jsonSize_str, textSize_stringText (List.all_eq_true.mp h)]

/-- The bytes of the members of an object without the commas. -/
def membersSize (m : Members) :
    ℕ∞ := (m.map fun kv => textSize (stringText kv.1) + 1 + jsonSize kv.2).sum

theorem membersSize_cons (k : PyStr) (v : Json) (m : Members) :
    membersSize ((k, v) :: m) = textSize (stringText k) + 1 + jsonSize v + membersSize m := by
  unfold membersSize
  rw [List.map_cons, List.sum_cons]

/-- The bytes of the names, with their colons. -/
def namesSize (names : List PyStr) : ℕ∞ := (names.map fun k => textSize (stringText k) + 1).sum

/-- The bytes of the values. -/
def valuesSize (m : Members) : ℕ∞ := (m.map fun kv => jsonSize kv.2).sum

theorem valuesSize_cons (k : PyStr) (v : Json) (m : Members) :
    valuesSize ((k, v) :: m) = jsonSize v + valuesSize m := by
  unfold valuesSize
  rw [List.map_cons, List.sum_cons]

theorem membersSize_split (m : Members) : membersSize m = namesSize (keys m) + valuesSize m := by
  unfold membersSize namesSize valuesSize keys
  rw [List.map_map, ← List.sum_map_add]
  rfl

/-- The size of plain names: two quotes and a colon each. -/
theorem namesSize_plain {names : List PyStr} (h : names.all (fun k => k.all isPlain) = true) :
    namesSize names = ((names.map List.length).sum + 3 * names.length : Nat) := by
  induction names with
  | nil => rfl
  | cons k names ih =>
    rw [List.all_cons, Bool.and_eq_true] at h
    have hcons : namesSize (k :: names) = textSize (stringText k) + 1 + namesSize names := by
      unfold namesSize
      rw [List.map_cons, List.sum_cons]
    rw [hcons, ih h.2, textSize_stringText (List.all_eq_true.mp h.1), List.map_cons, List.sum_cons,
      List.length_cons]
    push_cast
    ring

theorem textSize_memberText (m : PyStr × PyStr) :
    textSize (memberText m) = textSize (stringText m.1) + 1 + textSize m.2 := by
  unfold memberText
  rw [textSize_append, textSize_append]
  rfl

/-- The members add up to the texts of the members, where each of them has one. -/
theorem membersSize_eq (m : Members) :
    membersSize m = match dumpsMembers m with
      | some ts => (ts.map fun kt => textSize (memberText kt)).sum
      | none => ⊤ := by
  induction m with
  | nil =>
    rw [dumpsMembers]
    rfl
  | cons kv m ih =>
    obtain ⟨k, v⟩ := kv
    rw [membersSize_cons, ih, dumpsMembers, jsonSize]
    cases dumps v with
    | none => simp
    | some t =>
      -- one member without a text, here or later, and there is none of the object
      cases dumpsMembers m with
      | none => simp
      | some ts =>
        dsimp only
        rw [List.map_cons, List.sum_cons, textSize_memberText]

theorem length_dumpsMembers {m : Members} {ts : List (PyStr × PyStr)}
    (h : dumpsMembers m = some ts) :
    ts.length = m.length := by
  rw [(dumpsMembers_eq h).1, List.length_map]

/-- The size of texts joined by commas. -/
theorem textSize_joinComma (ts : List PyStr) :
    textSize (joinComma ts) = (ts.length - 1 : Nat) + (ts.map textSize).sum := by
  induction ts with
  | nil => rfl
  | cons t ts ih =>
    cases ts with
    | nil => simp [joinComma]
    | cons u ts =>
      have hcomma : textSize (lit ",") = 1 := rfl
      have hjoin : joinComma (t :: u :: ts) = t ++ lit "," ++ joinComma (u :: ts) := rfl
      have hsum : ((t :: u :: ts).map textSize).sum = textSize t
        + ((u :: ts).map textSize).sum := by
        rw [List.map_cons, List.sum_cons]
      have hlength : (t :: u :: ts).length - 1 = ((u :: ts).length - 1) + 1 := rfl
      rw [hjoin, textSize_append, textSize_append, ih, hcomma, hsum, hlength, Nat.cast_add,
        Nat.cast_one]
      ring

/-- The size of an object: its braces, its commas and its members, sorted or not. -/
theorem jsonSize_obj (m : Members) : jsonSize (.obj m) = 2 + (m.length - 1 : Nat)
    + membersSize m := by
  rw [membersSize_eq, jsonSize, dumps]
  cases h : dumpsMembers m with
  | none => simp
  | some ts =>
    have hopen : textSize (lit "\x7b") = 1 := rfl
    have hclose : textSize (lit "\x7d") = 1 := rfl
    -- sorting moves the members and keeps their sizes
    have hsorted : ((sortMembers ts).map fun kt => textSize (memberText kt)).sum
        = (ts.map fun kt => textSize (memberText kt)).sum :=
      ((List.perm_insertionSort _ ts).map _).sum_eq
    rw [Option.map_some]
    dsimp only
    rw [textSize_append, textSize_append, textSize_joinComma, List.length_map, List.map_map,
      hopen, hclose,
      length_sortMembers, length_dumpsMembers h]
    have hcomp : textSize ∘ memberText = fun kt => textSize (memberText kt) := rfl
    rw [hcomp, hsorted]
    have htwo : (2 : ℕ∞) = 1 + 1 := by norm_num
    rw [htwo]
    ring

end SddGov.Python
