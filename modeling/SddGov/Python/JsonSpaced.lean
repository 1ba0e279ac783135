import Mathlib.Data.List.Forall2
import SddGov.Python.JsonText
import SddGov.Python.Lines

/-!
# `json.dumps` as it comes

`dumpsSpaced` is `json.dumps(value, ensure_ascii=False)`: the members in their own
order, a space behind every comma and colon, and names for the floats that are no
numbers. The text reads back as the value (`loads_dumpsSpaced`).
-/

namespace SddGov.Python

/-! ## The text -/

/-- The separator of the items. -/
def comma : PyStr := lit ", "

/-- One member. -/
def spacedMember (m : PyStr × PyStr) : PyStr := stringText m.1 ++ lit ": " ++ m.2

mutual
/-- The text; `none` is the `ValueError` of an integer with too many digits. -/
def dumpsSpaced : Json → Option PyStr
  | .null => some (lit "null")
  | .bool true => some (lit "true")
  | .bool false => some (lit "false")
  | .int n => if maxStrDigits < (natText n.natAbs).length then none else some (intText n)
  | .float (.finite neg mag) => some (floatText neg mag)
  | .float .nan => some (lit "NaN")
  | .float (.inf false) => some (lit "Infinity")
  | .float (.inf true) => some (lit "-Infinity")
  | .str s => some (stringText s)
  | .arr xs => (dumpsSpacedList xs).map fun ts => lit "[" ++ joinTexts comma ts ++ lit "]"
  | .obj m => (dumpsSpacedMembers m).map fun ts =>
      lit "\x7b" ++ joinTexts comma (ts.map spacedMember) ++ lit "\x7d"

/-- The texts of the elements of an array. -/
def dumpsSpacedList : List Json → Option (List PyStr)
  | [] => some []
  | x :: xs =>
    match dumpsSpaced x, dumpsSpacedList xs with
    | some t, some ts => some (t :: ts)
    | _, _ => none

/-- The names and texts of the members of an object. -/
def dumpsSpacedMembers : List (PyStr × Json) → Option (List (PyStr × PyStr))
  | [] => some []
  | (k, v) :: rest =>
    match dumpsSpaced v, dumpsSpacedMembers rest with
    | some t, some ts => some ((k, t) :: ts)
    | _, _ => none
end

/-- The elements and their texts. -/
def ListTexts (ts : List PyStr) (xs : List Json) :
    Prop := List.Forall₂ (fun t x => dumpsSpaced x = some t) ts xs

/-- The members and their texts. -/
def MemberTexts (ts : List (PyStr × PyStr)) (m : List (PyStr × Json)) : Prop :=
  List.Forall₂ (fun t kv => t.1 = kv.1 ∧ dumpsSpaced kv.2 = some t.2) ts m

/-- The texts of the elements of a list. -/
theorem listTexts_of_some : ∀ {xs : List Json} {ts : List PyStr}, dumpsSpacedList xs = some ts →
    ListTexts ts xs
  | [], ts, h => by
    obtain rfl := Option.some.inj (h : some [] = some ts)
    exact .nil
  | x :: xs, ts, h => by
    rw [dumpsSpacedList] at h
    cases hhead : dumpsSpaced x with
    | none => simp [hhead] at h
    | some t =>
      cases htail : dumpsSpacedList xs with
      | none => simp [hhead, htail] at h
      | some us =>
        simp only [hhead, htail, Option.some.injEq] at h
        obtain rfl := h
        exact .cons hhead (listTexts_of_some htail)

/-- The texts of the members of an object. -/
theorem memberTexts_of_some : ∀ {m : List (PyStr × Json)} {ts : List (PyStr × PyStr)},
    dumpsSpacedMembers m = some ts → MemberTexts ts m
  | [], ts, h => by
    obtain rfl := Option.some.inj (h : some [] = some ts)
    exact .nil
  | (k, v) :: m, ts, h => by
    rw [dumpsSpacedMembers] at h
    cases hhead : dumpsSpaced v with
    | none => simp [hhead] at h
    | some t =>
      cases htail : dumpsSpacedMembers m with
      | none => simp [hhead, htail] at h
      | some us =>
        simp only [hhead, htail, Option.some.injEq] at h
        obtain rfl := h
        exact .cons ⟨rfl, hhead⟩ (memberTexts_of_some htail)

/-! ## Reading it back -/

/-- The text reads as the value at this depth, whatever follows it. -/
def Reads (d : Nat) (t : PyStr) (v : Json) : Prop :=
  Starts t ∧ ∀ r, Stops r → parseValue d (t ++ r) = .ok (v, r)

theorem joinTexts_cons (sep t : PyStr) {ts : List PyStr} (h : ts ≠ []) :
    joinTexts sep (t :: ts) = t ++ sep ++ joinTexts sep ts := by
  cases ts with
  | nil => exact absurd rfl h
  | cons u us => rfl

theorem starts_append {t : PyStr} (h : Starts t) (rest : PyStr) : Starts (t ++ rest) := by
  obtain ⟨c, t', rfl, hc⟩ := h
  exact ⟨c, t' ++ rest, rfl, hc⟩

theorem starts_joinTexts {t : PyStr} (h : Starts t) (sep : PyStr) (ts : List PyStr) :
    Starts (joinTexts sep (t :: ts)) := by
  cases ts with
  | nil => exact h
  | cons u us =>
    rw [joinTexts_cons sep t (by simp), List.append_assoc]
    exact starts_append h _

/-- There are no more texts than characters of what they are joined to. -/
theorem length_le_joinTexts (sep : PyStr) {ts : List PyStr} (h : ∀ t ∈ ts, t ≠ []) :
    ts.length ≤ (joinTexts sep ts).length := by
  induction ts with
  | nil => exact Nat.le_refl _
  | cons t ts ih =>
    have ht : 1 ≤ t.length := List.length_pos_iff.mpr (h t (List.mem_cons_self ..))
    have hrest := ih fun u hu => h u (List.mem_cons_of_mem _ hu)
    by_cases hts : ts = []
    · subst hts
      exact ht
    · rw [joinTexts_cons sep t hts, List.length_append, List.length_append, List.length_cons]
      omega

/-- Behind a separator the scanner goes on at the next item. -/
theorem skipWs_comma {t : PyStr} (h : Starts t) (rest : PyStr) :
    skipWs (comma ++ (t ++ rest)) = cp 0x2C :: (cp 0x20 :: (t ++ rest))
      ∧ skipWs (cp 0x20 :: (t ++ rest)) = t ++ rest :=
  ⟨rfl, skipWs_starts h rest⟩

/-- The element loop reads back a nonempty array. -/
theorem parseElems_joinTexts {d : Nat} {rest : PyStr} {ts : List PyStr} {vs : List Json}
    (h : List.Forall₂ (Reads d) ts vs) (hne : ts ≠ []) {fuel : Nat} (hfuel : ts.length ≤ fuel) :
    parseElems (parseValue d) fuel (joinTexts comma ts ++ lit "]" ++ rest) = .ok (vs, rest) := by
  induction h generalizing fuel with
  | nil => exact absurd rfl hne
  | @cons t v ts vs hhead htail ih =>
    obtain ⟨fuel, rfl⟩ : ∃ f, fuel = f + 1 := ⟨fuel - 1, by rw [List.length_cons] at hfuel; omega⟩
    rw [List.length_cons] at hfuel
    cases htail with
    | nil =>
      have hstop : Stops (lit "]" ++ rest) := Or.inr (Or.inl rfl)
      have hread := hhead.2 _ hstop
      rw [List.append_assoc]
      show parseElems (parseValue d) (fuel + 1) (t ++ (lit "]" ++ rest)) = _
      rw [parseElems, hread]
      dsimp only
      rw [skipWs_stops hstop]
      rfl
    | @cons u w us ws hnext hrest =>
      have hstarts := starts_joinTexts hnext.1 comma us
      have hread := hhead.2 (comma ++ (joinTexts comma (u :: us) ++ (lit "]" ++ rest))) (Or.inl rfl)
      have hskip := skipWs_comma hstarts (lit "]" ++ rest)
      have hloop := @ih (by simp) fuel (by omega)
      rw [joinTexts_cons comma t (by simp)]
      simp only [List.append_assoc] at hloop ⊢
      rw [parseElems_comma hread hskip.1, hskip.2, hloop]
      rfl

theorem starts_spacedMember (m : PyStr × PyStr) : Starts (spacedMember m) :=
  ⟨cp 0x22, m.1.flatMap escapeChar ++ lit "\"" ++ lit ": " ++ m.2, by
    unfold spacedMember stringText
    simp only [List.append_assoc]
    rfl, rfl, by decide, by decide, by decide⟩

/-- One member up to what follows it. -/
theorem parseMembers_spacedMember {d fuel : Nat} {k t r : PyStr} {v : Json} (h : Reads d t v)
    (hr : Stops r) :
    parseMembers (parseValue d) (fuel + 1) (spacedMember (k, t) ++ r)
      = membersAfter (parseValue d) fuel (k, v) r := by
  have htext : spacedMember (k, t) ++ r
      = cp 0x22 :: (k.flatMap escapeChar ++ lit "\"" ++ (cp 0x3A :: (cp 0x20 :: (t ++ r)))) := by
    unfold spacedMember stringText
    simp only [List.append_assoc]
    rfl
  have hcolon : skipWs (cp 0x3A :: (cp 0x20 :: (t ++ r))) = cp 0x3A :: (cp 0x20 :: (t ++ r)) := rfl
  have hspace : skipWs (cp 0x20 :: (t ++ r)) = t ++ r := skipWs_starts h.1 r
  rw [htext, parseMembers, if_neg (by decide), parseString_stringText]
  dsimp only
  rw [hcolon]
  dsimp only
  rw [if_neg (by decide), hspace, h.2 r hr]
  dsimp only
  unfold membersAfter
  cases skipWs r with
  | nil => rfl
  | cons c rest =>
    dsimp only
    cases parseMembers (parseValue d) fuel (skipWs rest) <;> rfl

/-- The member loop reads back a nonempty object. -/
theorem parseMembers_joinTexts {d : Nat} {rest : PyStr} {ts : List (PyStr × PyStr)}
    {m : List (PyStr × Json)}
    (h : List.Forall₂ (fun t kv => t.1 = kv.1 ∧ Reads d t.2 kv.2) ts m) (hne : ts ≠ []) {fuel : Nat}
    (hfuel : ts.length ≤ fuel) :
    parseMembers (parseValue d) fuel (joinTexts comma (ts.map spacedMember) ++ lit "\x7d" ++ rest)
      = .ok (m, rest) := by
  induction h generalizing fuel with
  | nil => exact absurd rfl hne
  | @cons t kv ts m hhead htail ih =>
    obtain ⟨k, t⟩ := t
    obtain ⟨k', v⟩ := kv
    obtain ⟨rfl, hread⟩ : k = k' ∧ Reads d t v := hhead
    obtain ⟨fuel, rfl⟩ : ∃ f, fuel = f + 1 := ⟨fuel - 1, by rw [List.length_cons] at hfuel; omega⟩
    rw [List.length_cons] at hfuel
    rw [List.map_cons]
    cases htail with
    | nil =>
      have hstop : Stops (lit "\x7d" ++ rest) := Or.inr (Or.inr rfl)
      rw [List.append_assoc]
      show parseMembers (parseValue d) (fuel + 1) (spacedMember (k, t) ++ (lit "\x7d" ++ rest)) = _
      rw [parseMembers_spacedMember hread hstop]
      unfold membersAfter
      rw [skipWs_stops hstop]
      rfl
    | @cons u w us ws hnext hrest =>
      have hstarts := starts_joinTexts (starts_spacedMember u) comma (us.map spacedMember)
      have hskip := skipWs_comma hstarts (lit "\x7d" ++ rest)
      have hloop := @ih (by simp) fuel (by omega)
      rw [joinTexts_cons comma _ (by simp)]
      simp only [List.append_assoc, List.map_cons] at hloop ⊢
      have hstop :
        Stops (comma ++ (joinTexts comma (spacedMember u :: us.map spacedMember)
        ++ (lit "\x7d" ++ rest))) :=
        Or.inl rfl
      rw [parseMembers_spacedMember hread hstop]
      unfold membersAfter
      rw [hskip.1]
      dsimp only
      rw [if_neg (by decide), if_pos (by decide), hskip.2, hloop]
      rfl

/-- The text of an array reads back where its elements do. -/
theorem reads_arr {d : Nat} {ts : List PyStr} {vs : List Json} (h : List.Forall₂ (Reads d) ts vs) :
    Reads (d + 1) (lit "[" ++ joinTexts comma ts ++ lit "]") (.arr vs) := by
  refine ⟨⟨cp 0x5B, joinTexts comma ts ++ lit "]", rfl, rfl, by decide, by decide, by decide⟩,
    fun r _ => ?_⟩
  show parseValue (d + 1) (cp 0x5B :: (joinTexts comma ts ++ lit "]" ++ r)) = _
  rw [parseValue.eq_def]
  dsimp only
  rw [if_neg (by decide), if_neg (by decide), if_pos (by decide)]
  cases h with
  | nil => rfl
  | @cons t v ts vs hhead htail =>
    have hall : List.Forall₂ (Reads d) (t :: ts) (v :: vs) := .cons hhead htail
    have hlength : (t :: ts).length ≤ (joinTexts comma (t :: ts) ++ lit "]" ++ r).length := by
      have hstarts : ∀ u ∈ t :: ts, Starts u := ((List.forall₂_and_left _ _).mp hall).1
      have hjoin := length_le_joinTexts comma fun u hu => (hstarts u hu).ne_nil
      rw [List.length_append, List.length_append]
      omega
    have hloop := @parseElems_joinTexts d r _ _ hall (by simp) _ hlength
    obtain ⟨c, u, hc, hspace, -, hclose, -⟩ := starts_joinTexts hhead.1 comma ts
    rw [hc] at hloop ⊢
    unfold parseArray
    rw [show skipWs (c :: u ++ lit "]" ++ r) = c :: (u ++ lit "]" ++ r) by simp [skipWs, hspace]]
    dsimp only
    rw [if_neg hclose]
    simp only [List.cons_append] at hloop ⊢
    rw [hloop]
    rfl

/-- The text of an object reads back where the values of its members do. -/
theorem reads_obj {d : Nat} {ts : List (PyStr × PyStr)} {m : List (PyStr × Json)}
    (h : List.Forall₂ (fun t kv => t.1 = kv.1 ∧ Reads d t.2 kv.2) ts m) :
    Reads (d + 1) (lit "\x7b" ++ joinTexts comma (ts.map spacedMember) ++ lit "\x7d") (.obj m) := by
  refine ⟨⟨cp 0x7B, joinTexts comma (ts.map spacedMember) ++ lit "\x7d", rfl, rfl, by
    decide, by decide, by decide⟩,
    fun r _ => ?_⟩
  show parseValue (d + 1) (cp 0x7B :: (joinTexts comma (ts.map spacedMember) ++ lit "\x7d" ++ r))
    = _
  rw [parseValue.eq_def]
  dsimp only
  rw [if_neg (by decide), if_pos (by decide)]
  by_cases hne : ts = []
  · subst hne
    cases h
    rfl
  · have hlength : ts.length ≤ (joinTexts comma (ts.map spacedMember) ++ lit "\x7d"
      ++ r).length := by
      have hnonempty : ∀ u ∈ ts.map spacedMember, u ≠ [] := by
        intro u hu
        obtain ⟨t, -, rfl⟩ := List.mem_map.mp hu
        exact (starts_spacedMember t).ne_nil
      have hjoin := length_le_joinTexts comma hnonempty
      rw [List.length_map] at hjoin
      rw [List.length_append, List.length_append]
      omega
    have hloop := @parseMembers_joinTexts d r _ _ h hne _ hlength
    obtain ⟨t, rest, rfl⟩ := List.exists_cons_of_ne_nil hne
    obtain ⟨c, u, hc, hspace, -, -, hclose⟩ :=
      starts_joinTexts (starts_spacedMember t) comma (rest.map spacedMember)
    rw [List.map_cons, hc] at hloop ⊢
    unfold parseObject
    rw [show skipWs (c :: u ++ lit "\x7d" ++ r) = c :: (u ++ lit "\x7d" ++ r) by
      simp [skipWs, hspace]]
    dsimp only
    rw [if_neg hclose]
    simp only [List.cons_append] at hloop ⊢
    rw [hloop]
    rfl

/-- What the two writers write alike reads back alike. -/
theorem reads_of_readsBack {v : Json} (h : ReadsBack v) (hcanon : canon v = v) {d : Nat} {t : PyStr}
    (ht : dumps v = some t) (hd : depth v ≤ d) : Reads d t v := by
  obtain ⟨hstarts, hread⟩ := h t ht
  rw [hcanon] at hread
  exact ⟨hstarts, fun r hr => hread d r hd hr⟩

theorem dropPrefix?_append (p r : PyStr) : dropPrefix? p (p ++ r) = some r := by
  unfold dropPrefix?
  rw [if_pos (List.isPrefixOf_iff_prefix.mpr (List.prefix_append p r)), List.drop_left]

/-- What begins with one of these goes to the number scanner. -/
theorem parseValue_constant {c : CodePoint} (hc : c.val = 0x4E ∨ c.val = 0x49 ∨ c.val = 0x2D)
    (d : Nat)
    (t : PyStr) : parseValue d (c :: t) = parseNumber (c :: t) := by
  have hword : ∀ n : Nat, n = 0x6E ∨ n = 0x74 ∨ n = 0x66 → cp n ≠ c := by
    intro n hn heq
    have hval := congrArg Fin.val heq
    rw [cp_val] at hval
    omega
  rw [parseValue.eq_def]
  dsimp only
  rw [if_neg (by omega), if_neg (by omega), if_neg (by omega),
    show lit "null" = cp 0x6E :: lit "ull" from rfl,
    show lit "true" = cp 0x74 :: lit "rue" from rfl,
    show lit "false" = cp 0x66 :: lit "alse" from rfl,
    dropPrefix?_ne (hword _ (by decide)), dropPrefix?_ne (hword _ (by decide)),
      dropPrefix?_ne (hword _ (by decide))]

/-- A float that is no number reads back from its name. -/
theorem reads_nonFinite {x : PyFloat} {t : PyStr} (hx : ∀ neg mag, x ≠ .finite neg mag)
    (ht : dumpsSpaced (.float x) = some t) (d : Nat) : Reads d t (.float x) := by
  have hnan : lit "NaN" = cp 0x4E :: lit "aN" := rfl
  have hinf : lit "Infinity" = cp 0x49 :: lit "nfinity" := rfl
  have hneg : lit "-Infinity" = cp 0x2D :: lit "Infinity" := rfl
  cases x with
  | finite neg mag => exact absurd rfl (hx neg mag)
  | nan =>
    obtain rfl := Option.some.inj (ht : some (lit "NaN") = some t)
    refine ⟨⟨_, _, hnan, rfl, by decide, by decide, by decide⟩, fun r _ => ?_⟩
    have hscan := parseValue_constant (c := cp 0x4E) (by decide) d (lit "aN" ++ r)
    rw [← List.cons_append, ← hnan] at hscan
    rw [hscan]
    unfold parseNumber
    rw [dropPrefix?_append]
  | inf neg =>
    cases neg with
    | false =>
      obtain rfl := Option.some.inj (ht : some (lit "Infinity") = some t)
      refine ⟨⟨_, _, hinf, rfl, by decide, by decide, by decide⟩, fun r _ => ?_⟩
      have hscan := parseValue_constant (c := cp 0x49) (by decide) d (lit "nfinity" ++ r)
      have hfirst : dropPrefix? (lit "NaN") (lit "Infinity" ++ r) = none :=
        dropPrefix?_ne (by decide)
      rw [← List.cons_append, ← hinf] at hscan
      rw [hscan]
      unfold parseNumber
      rw [hfirst, dropPrefix?_append]
    | true =>
      obtain rfl := Option.some.inj (ht : some (lit "-Infinity") = some t)
      refine ⟨⟨_, _, hneg, rfl, by decide, by decide, by decide⟩, fun r _ => ?_⟩
      have hscan := parseValue_constant (c := cp 0x2D) (by decide) d (lit "Infinity" ++ r)
      have hfirst : dropPrefix? (lit "NaN") (lit "-Infinity" ++ r) = none :=
        dropPrefix?_ne (by decide)
      have hsecond : dropPrefix? (lit "Infinity") (lit "-Infinity" ++ r) = none :=
        dropPrefix?_ne (by decide)
      rw [← List.cons_append, ← hneg] at hscan
      rw [hscan]
      unfold parseNumber
      rw [hfirst, hsecond, dropPrefix?_append]

mutual
/-- Every value reads back from its text. One case for each constructor. -/
theorem reads_dumpsSpaced : ∀ (v : Json) {d : Nat} {t : PyStr}, dumpsSpaced v = some t →
    depth v ≤ d → Reads d t v
  | .null, _, _, ht, hd => reads_of_readsBack (readsBack .null) rfl ht hd
  | .bool true, _, _, ht, hd => reads_of_readsBack (readsBack (.bool true)) rfl ht hd
  | .bool false, _, _, ht, hd => reads_of_readsBack (readsBack (.bool false)) rfl ht hd
  | .int n, _, _, ht, hd => reads_of_readsBack (readsBack_int n) rfl ht hd
  | .float (.finite neg mag), _, _, ht, hd => by
    rw [dumpsSpaced] at ht
    exact reads_of_readsBack (readsBack_float neg mag) (by simp [canon]) (by rw [dumps, ht]) hd
  | .float .nan, d, _, ht, _ => reads_nonFinite (by simp) ht d
  | .float (.inf _), d, _, ht, _ => reads_nonFinite (by simp) ht d
  | .str s, _, _, ht, hd => reads_of_readsBack (readsBack_str s) rfl ht hd
  | .arr xs, d, t, ht, hd => by
    rw [dumpsSpaced] at ht
    obtain ⟨ts, hts, rfl⟩ := Option.map_eq_some_iff.mp ht
    rw [depth] at hd
    obtain ⟨d, rfl⟩ : ∃ e, d = e + 1 := ⟨d - 1, by omega⟩
    exact reads_arr (reads_list xs (listTexts_of_some hts) (by omega))
  | .obj m, d, t, ht, hd => by
    rw [dumpsSpaced] at ht
    obtain ⟨ts, hts, rfl⟩ := Option.map_eq_some_iff.mp ht
    rw [depth] at hd
    obtain ⟨d, rfl⟩ : ∃ e, d = e + 1 := ⟨d - 1, by omega⟩
    exact reads_obj (reads_members m (memberTexts_of_some hts) (by omega))

/-- Each element of a list is read back; the induction is on the list. -/
theorem reads_list : ∀ (xs : List Json) {d : Nat} {ts : List PyStr}, ListTexts ts xs →
    depthList xs ≤ d →
    List.Forall₂ (Reads d) ts xs
  | [], _, _, h, _ => by
    cases h
    exact .nil
  | x :: xs, d, ts, h, hd => by
    cases h with
    | cons hhead htail =>
      rw [depthList] at hd
      have hread := reads_dumpsSpaced x hhead (by omega : depth x ≤ d)
      exact .cons hread (reads_list xs htail (by omega))

theorem reads_members : ∀ (m : List (PyStr × Json)) {d : Nat} {ts : List (PyStr × PyStr)},
    MemberTexts ts m →
    depthMembers m ≤ d → List.Forall₂ (fun t kv => t.1 = kv.1 ∧ Reads d t.2 kv.2) ts m
  | [], _, _, h, _ => by
    cases h
    exact .nil
  | (k, v) :: m, d, ts, h, hd => by
    cases h with
    | cons hhead htail =>
      rw [depthMembers] at hd
      have hread := reads_dumpsSpaced v hhead.2 (by omega : depth v ≤ d)
      exact .cons ⟨hhead.1, hread⟩ (reads_members m htail (by omega))
end

/-! ## Names that occur once -/

theorem setMember_new {key : PyStr} {m : List (PyStr × Json)} (h : key ∉ keys m) (v : Json) :
    setMember key v m = m ++ [(key, v)] := by
  induction m with
  | nil => rfl
  | cons kv m ih =>
    obtain ⟨k, w⟩ := kv
    unfold keys at h ih
    rw [List.map_cons, List.mem_cons, not_or] at h
    rw [setMember, if_neg (Ne.symm h.1), ih h.2]
    rfl

/-- Setting members with new names appends them. -/
theorem foldl_setMember : ∀ {m acc : List (PyStr × Json)}, (keys (acc ++ m)).Nodup →
    m.foldl (fun acc kv => setMember kv.1 kv.2 acc) acc = acc ++ m
  | [], acc, _ => (List.append_nil acc).symm
  | kv :: m, acc, h => by
    have hsplit : acc ++ kv :: m = acc ++ [kv] ++ m := by simp
    have hnew : kv.1 ∉ keys acc := by
      unfold keys at h ⊢
      rw [List.map_append, List.map_cons, List.nodup_middle, List.nodup_cons] at h
      exact fun hmem => h.1 (List.mem_append_left _ hmem)
    rw [List.foldl_cons, setMember_new hnew, hsplit]
    rw [hsplit] at h
    exact foldl_setMember h

theorem keys_nodup : ∀ {m : List (PyStr × Json)}, uniqueNamesMembers m = true → (keys m).Nodup
  | [], _ => List.nodup_nil
  | (k, v) :: m, h => by
    rw [uniqueNamesMembers, Bool.and_eq_true, Bool.and_eq_true, Bool.not_eq_true'] at h
    have hnew : k ∉ keys m := by simpa using h.1.2
    exact List.nodup_cons.mpr ⟨hnew, keys_nodup h.2⟩

mutual
/-- A value whose names occur once is not changed by `dict`. -/
theorem collapse_eq : ∀ {v : Json}, uniqueNames v = true → collapse v = v
  | .null, _ => rfl
  | .bool _, _ => rfl
  | .int _, _ => rfl
  | .float _, _ => by simp [collapse]
  | .str _, _ => rfl
  | .arr xs, h => by
    rw [uniqueNames] at h
    rw [collapse, collapseList_eq h]
  | .obj m, h => by
    rw [uniqueNames] at h
    rw [collapse, collapseMembers_eq h]
    exact congrArg Json.obj (@foldl_setMember m [] (keys_nodup h))

theorem collapseList_eq : ∀ {xs : List Json}, uniqueNamesList xs = true → collapseList xs = xs
  | [], _ => rfl
  | x :: xs, h => by
    rw [uniqueNamesList, Bool.and_eq_true] at h
    rw [collapseList, collapse_eq h.1, collapseList_eq h.2]

theorem collapseMembers_eq : ∀ {m : List (PyStr × Json)}, uniqueNamesMembers m = true →
    collapseMembers m = m
  | [], _ => rfl
  | (k, v) :: m, h => by
    rw [uniqueNamesMembers, Bool.and_eq_true, Bool.and_eq_true] at h
    rw [collapseMembers, collapse_eq h.1.1, collapseMembers_eq h.2]
end

/-- `json.loads` gives back what `json.dumps` wrote. -/
theorem loads_dumpsSpaced {v : Json} {t : PyStr} (h : dumpsSpaced v = some t)
    (hunique : uniqueNames v = true)
    {limit : Nat} (hdepth : depth v ≤ limit) : loads limit t = .ok v := by
  obtain ⟨⟨c, rest, rfl, hspace, hascii, -⟩, hread⟩ := reads_dumpsSpaced v h hdepth
  have hvalue := hread [] trivial
  have hskip : skipWs (c :: rest) = c :: rest := by simp [skipWs, hspace]
  rw [List.append_nil] at hvalue
  have hbom : (c :: rest).head? ≠ some (cp 0xFEFF) := by
    intro hbom
    obtain rfl := Option.some.inj hbom
    exact absurd hascii (by decide)
  unfold loads parse
  rw [if_neg hbom, hskip, hvalue]
  exact congrArg Except.ok (collapse_eq hunique)

end SddGov.Python
