import SddGov.Broker.Request
import SddGov.Python.JsonText

/-!
# What the scanner reads

Three facts about the ledger scanner carry everything else. A nonce whose line
stands in the bytes at a line start is among the nonces an accepting scan
returns (`scan_recorded`). An accepted ledger stays accepted when the record of
a new nonce is appended (`scan_append_record`). A ledger whose last line is cut
is refused (`scan_torn`).

The record itself is pinned down once, in `encodeRecord_spec`: for fields the
request check lets through, the encoder writes one line of at most
`maxLedgerRecordBytes` bytes that the scanner reads as that nonce.
-/

namespace SddGov.Broker

open SddGov.Effect SddGov.Python

/-! ## Lines -/

/-- A text without a line break, and its line break. -/
def IsLine (l : Bytes) : Prop := ∃ body, l = body ++ [newline] ∧ newline ∉ body

/-- A line and the rest are the bytes. -/
theorem readline_append_eq (limit : Nat) (s : Bytes) :
    (readline limit s).1 ++ (readline limit s).2 = s := by
  induction limit generalizing s with
  | zero => rfl
  | succ limit ih =>
    cases s with
    | nil => rfl
    | cons b s =>
      rw [readline]
      split
      · rfl
      · simpa using ih s

/-- A line shorter than the limit is read up to its newline. -/
theorem readline_line {body rest : Bytes} (hb : newline ∉ body) :
    ∀ {limit : Nat}, body.length < limit →
      readline limit (body ++ newline :: rest) = (body ++ [newline], rest) := by
  induction body with
  | nil =>
    intro limit hl
    obtain ⟨k, rfl⟩ : ∃ k, limit = k + 1 := ⟨limit - 1, by simp at hl; omega⟩
    simp [readline]
  | cons b body ih =>
    intro limit hl
    obtain ⟨k, rfl⟩ : ∃ k, limit = k + 1 := ⟨limit - 1, by simp at hl; omega⟩
    rw [List.mem_cons, not_or] at hb
    rw [List.length_cons] at hl
    have := @ih hb.2 k (by omega)
    rw [List.cons_append, readline, if_neg (Ne.symm hb.1), this]
    rfl

/-- What a read returns holds a line break only at its end. -/
theorem newline_notMem_dropLast_readline (limit : Nat) (s : Bytes) :
    newline ∉ (readline limit s).1.dropLast := by
  induction limit generalizing s with
  | zero => simp [readline]
  | succ limit ih =>
    cases s with
    | nil => simp [readline]
    | cons b s =>
      rw [readline]
      split
      · simp
      · next hb =>
        dsimp only
        cases h : (readline limit s).1 with
        | nil => simp
        | cons c l =>
          have := ih s
          rw [h] at this
          rw [List.dropLast_cons_cons, List.mem_cons, not_or]
          exact ⟨Ne.symm hb, this⟩

theorem isLine_of_getLast {l : Bytes} (h : l.getLast? = some newline)
    (hd : newline ∉ l.dropLast) : IsLine l := by
  refine ⟨l.dropLast, ?_, hd⟩
  have hne : l ≠ [] := by rintro rfl; simp at h
  rw [List.getLast?_eq_some_getLast hne] at h
  have := List.dropLast_append_getLast hne
  rw [Option.some.inj h] at this
  exact this.symm

theorem IsLine.ne_nil {l : Bytes} (h : IsLine l) : l ≠ [] := by
  obtain ⟨body, rfl, -⟩ := h
  simp

theorem IsLine.getLast {l : Bytes} (h : IsLine l) : l.getLast? = some newline := by
  obtain ⟨body, rfl, -⟩ := h
  simp

/-- A complete line within the limit is what a read returns. -/
theorem readline_isLine {l rest : Bytes} (h : IsLine l) {limit : Nat} (hl : l.length ≤ limit) :
    readline limit (l ++ rest) = (l, rest) := by
  obtain ⟨body, rfl, hb⟩ := h
  rw [List.length_append, List.length_singleton] at hl
  rw [List.append_assoc, List.singleton_append]
  exact readline_line hb (by omega)

/-- The line a read returns. -/
theorem readline_isLine_of_getLast {limit : Nat} {s l rest : Bytes}
    (h : readline limit s = (l, rest)) (hl : l.getLast? = some newline) : IsLine l := by
  have := newline_notMem_dropLast_readline limit s
  rw [h] at this
  exact isLine_of_getLast hl this

theorem readline_nil_iff {limit : Nat} {s rest : Bytes}
    (h : readline (limit + 1) s = ([], rest)) : s = [] := by
  cases s with
  | nil => rfl
  | cons b s =>
    rw [readline] at h
    split at h <;> simp at h

/-! ## The scanning loop -/

variable [Nesting]

/-- What a scanned line is: short enough, ended, new, and the same line under every list of nonces
that lacks its own. -/
theorem scanLine_ok {line : Bytes} {seen : List PyStr} {n : PyStr}
    (h : scanLine line seen = .ok n) :
    line.length ≤ maxLedgerRecordBytes ∧ line.getLast? = some newline ∧ n ∉ seen
      ∧ scanLine line [] = .ok n := by
  unfold scanLine at h ⊢
  split at h
  · exact absurd h (by simp)
  next hc =>
  rw [not_or, not_not] at hc
  refine ⟨by omega, hc.2, ?_⟩
  rw [if_neg (by rw [not_or, not_not]; exact hc)]
  cases hr : loadsRecord line with
  | error e => rw [hr] at h; exact absurd h (by simp)
  | ok row =>
    rw [hr] at h
    dsimp only at h ⊢
    cases hv : validLedgerRecord row with
    | none => rw [hv] at h; exact absurd h (by simp)
    | some m =>
      rw [hv] at h
      dsimp only at h ⊢
      split at h
      · exact absurd h (by simp)
      · next hm =>
        obtain rfl := Except.ok.inj h
        exact ⟨hm, by simp⟩

/-- One turn of the loop. -/
theorem scanLines_succ {fuel : Nat} {s l rest : Bytes} {seen out : List PyStr}
    (hr : readline (maxLedgerRecordBytes + 1) s = (l, rest)) (hl : l ≠ [])
    (h : scanLines (fuel + 1) s seen = .ok out) :
    ∃ n, scanLine l seen = .ok n ∧ scanLines fuel rest (n :: seen) = .ok out := by
  rw [scanLines, hr] at h
  cases l with
  | nil => exact absurd rfl hl
  | cons b l =>
    dsimp only at h
    cases hs : scanLine (b :: l) seen with
    | error e => rw [hs] at h; exact absurd h (by simp)
    | ok n => rw [hs] at h; exact ⟨n, rfl, h⟩

theorem scanLines_eq {fuel : Nat} {s l rest : Bytes} {seen : List PyStr} {n : PyStr}
    (hr : readline (maxLedgerRecordBytes + 1) s = (l, rest)) (hl : l ≠ [])
    (hs : scanLine l seen = .ok n) :
    scanLines (fuel + 1) s seen = scanLines fuel rest (n :: seen) := by
  rw [scanLines, hr]
  cases l with
  | nil => exact absurd rfl hl
  | cons b l =>
    dsimp only
    rw [hs]

omit [Nesting] in
theorem length_readline {limit : Nat} {s l rest : Bytes} (h : readline limit s = (l, rest))
    (hl : l ≠ []) : rest.length < s.length ∧ s = l ++ rest := by
  have := readline_append_eq limit s
  rw [h] at this
  dsimp only at this
  have hpos := List.length_pos_iff.mpr hl
  rw [← this, List.length_append]
  exact ⟨by omega, rfl⟩

theorem scanLines_nil (fuel : Nat) (seen : List PyStr) : scanLines fuel [] seen = .ok seen := by
  cases fuel <;> rfl

/-- The scan keeps what it has seen. -/
theorem scanLines_subset : ∀ {fuel : Nat} {s : Bytes} {seen out : List PyStr},
    scanLines fuel s seen = .ok out → ∀ n ∈ seen, n ∈ out
  | 0, s, seen, out, h, n, hn => by
    obtain rfl := Except.ok.inj h
    exact hn
  | fuel + 1, s, seen, out, h, n, hn => by
    cases hr : readline (maxLedgerRecordBytes + 1) s with
    | mk l rest =>
      by_cases hl : l = []
      · subst hl
        obtain rfl := readline_nil_iff hr
        rw [scanLines_nil] at h
        obtain rfl := Except.ok.inj h
        exact hn
      · obtain ⟨m, -, h'⟩ := scanLines_succ hr hl h
        exact scanLines_subset h' n (List.mem_cons_of_mem _ hn)

/-- The line of nonce `n` stands in the bytes, at a line start. -/
def Recorded (n : PyStr) (s : Bytes) : Prop :=
  ∃ pre line post, s = pre ++ line ++ post ∧ (pre = [] ∨ pre.getLast? = some newline)
    ∧ IsLine line ∧ scanLine line [] = .ok n

theorem Recorded.append {n : PyStr} {s : Bytes} (h : Recorded n s) (t : Bytes) :
    Recorded n (s ++ t) := by
  obtain ⟨pre, line, post, rfl, hp, hl, hn⟩ := h
  exact ⟨pre, line, post ++ t, by simp, hp, hl, hn⟩

omit [Nesting] in
/-- The first line break of `pre ++ rest` is in `pre` when `pre` ends a line. -/
theorem exists_eq_append_of_isLine {l rest pre tail : Bytes} (hl : IsLine l)
    (hp : pre.getLast? = some newline) (h : l ++ rest = pre ++ tail) :
    ∃ pre', pre = l ++ pre' ∧ rest = pre' ++ tail := by
  rcases List.append_eq_append_iff.mp h with ⟨as, h1, h2⟩ | ⟨bs, h1, h2⟩
  · exact ⟨as, h1, h2⟩
  · -- `pre` is a prefix of the line, so it is the whole line
    obtain ⟨body, rfl, hb⟩ := hl
    cases bs using List.reverseRecOn with
    | nil => exact ⟨[], by simpa using h1.symm, by simpa using h2.symm⟩
    | append_singleton bs b =>
      rw [← List.append_assoc] at h1
      have h3 := List.append_inj_left' h1 rfl
      have hmem : newline ∈ pre := List.mem_of_getLast? hp
      exact absurd (h3 ▸ List.mem_append_left bs hmem) hb

/-- A nonce whose line stands at a line start is found. The induction is on the fuel, line by
line. -/
theorem scanLines_recorded {n : PyStr} : ∀ {fuel : Nat} {s : Bytes} {seen out : List PyStr},
    scanLines fuel s seen = .ok out → s.length ≤ fuel → Recorded n s → n ∈ out
  | 0, s, seen, out, _, hf, hrec => by
    obtain ⟨pre, line, post, rfl, -, hl, -⟩ := hrec
    have := List.length_pos_iff.mpr hl.ne_nil
    simp at hf
    exact absurd hf.2.1 hl.ne_nil
  | fuel + 1, s, seen, out, h, hf, hrec => by
    cases hr : readline (maxLedgerRecordBytes + 1) s with
    | mk l rest =>
      by_cases hl : l = []
      · subst hl
        obtain rfl := readline_nil_iff hr
        obtain ⟨pre, line, post, he, -, hln, -⟩ := hrec
        have := hln.ne_nil
        simp at he
        exact absurd he.2.1 this
      · obtain ⟨m, hm, h'⟩ := scanLines_succ hr hl h
        obtain ⟨hlen, hlast, -, hm0⟩ := scanLine_ok hm
        have hline := readline_isLine_of_getLast hr hlast
        obtain ⟨hlt, hs⟩ := length_readline hr hl
        obtain ⟨pre, line, post, he, hp, hln, hn⟩ := hrec
        rcases hp with rfl | hp
        · -- the recorded line is the first one
          have heq : l ++ rest = line ++ post := by rw [← hs, he, List.nil_append]
          have hll : l = line := by
            obtain ⟨p', hp1, -⟩ := exists_eq_append_of_isLine hline hln.getLast heq
            obtain ⟨p'', hp2, -⟩ := exists_eq_append_of_isLine hln hline.getLast heq.symm
            have hnil : p' = [] := by
              have := congrArg List.length hp1
              have h2 := congrArg List.length hp2
              rw [List.length_append] at this h2
              exact List.length_eq_zero_iff.mp (by omega)
            rw [hp1, hnil, List.append_nil]
          rw [hll, hn] at hm0
          obtain rfl := Except.ok.inj hm0
          exact scanLines_subset h' _ (List.mem_cons_self ..)
        · have heq : l ++ rest = pre ++ (line ++ post) := by
            rw [← hs, he, List.append_assoc]
          obtain ⟨pre', hpre, hrest⟩ := exists_eq_append_of_isLine hline hp heq
          refine scanLines_recorded h' (by omega) ⟨pre', line, post, ?_, ?_, hln, hn⟩
          · rw [hrest, List.append_assoc]
          · by_cases hnil : pre' = []
            · exact Or.inl hnil
            · rw [hpre, List.getLast?_append_of_ne_nil _ hnil] at hp
              exact Or.inr hp

/-- **An accepting scan returns every recorded nonce.** -/
theorem scan_recorded {n : PyStr} {s : Bytes} {out : List PyStr} (h : scan s = .ok out)
    (hrec : Recorded n s) : n ∈ out := by
  unfold scan at h
  split at h
  · exact absurd h (by simp)
  · exact scanLines_recorded h (Nat.le_refl _) hrec

/-- One more line at the end is one more nonce at the end of the scan. -/
theorem scanLines_append {line : Bytes} {n : PyStr} (hline : IsLine line) :
    ∀ {fuel : Nat} {s : Bytes} {seen out : List PyStr},
      scanLines fuel s seen = .ok out → s.length ≤ fuel → scanLine line out = .ok n →
      scanLines (fuel + line.length) (s ++ line) seen = .ok (n :: out)
  | fuel, s, seen, out, h, hf, hn => by
    have hlen := (scanLine_ok hn).1
    have hpos := List.length_pos_iff.mpr hline.ne_nil
    by_cases hs : s = []
    · subst hs
      rw [scanLines_nil] at h
      obtain rfl := Except.ok.inj h
      obtain ⟨k, hk⟩ : ∃ k, fuel + line.length = k + 1 := ⟨fuel + line.length - 1, by omega⟩
      have hr := @readline_isLine line [] hline _
        (show line.length ≤ maxLedgerRecordBytes + 1 by omega)
      rw [List.append_nil] at hr
      rw [List.nil_append, hk, scanLines_eq hr hline.ne_nil hn, scanLines_nil]
    · cases fuel with
      | zero => exact absurd (List.length_eq_zero_iff.mp (by omega)) hs
      | succ fuel =>
        cases hr : readline (maxLedgerRecordBytes + 1) s with
        | mk l rest =>
          have hl : l ≠ [] := by
            rintro rfl
            exact hs (readline_nil_iff hr)
          obtain ⟨m, hm, h'⟩ := scanLines_succ hr hl h
          obtain ⟨hlen', hlast, -, -⟩ := scanLine_ok hm
          obtain ⟨hlt, hsplit⟩ := length_readline hr hl
          have hr' : readline (maxLedgerRecordBytes + 1) (s ++ line) = (l, rest ++ line) := by
            rw [hsplit, List.append_assoc]
            exact readline_isLine (readline_isLine_of_getLast hr hlast) (by omega)
          rw [show fuel + 1 + line.length = fuel + line.length + 1 by omega,
            scanLines_eq hr' hl hm]
          exact scanLines_append hline h' (by omega) hn
termination_by fuel => fuel

/-- An accepted ledger is empty or ends a line. -/
theorem scanLines_ends : ∀ {fuel : Nat} {s : Bytes} {seen out : List PyStr},
    scanLines fuel s seen = .ok out → s.length ≤ fuel → s = [] ∨ s.getLast? = some newline
  | 0, s, _, _, _, hf => Or.inl (List.length_eq_zero_iff.mp (by omega))
  | fuel + 1, s, seen, out, h, hf => by
    cases hr : readline (maxLedgerRecordBytes + 1) s with
    | mk l rest =>
      by_cases hl : l = []
      · subst hl
        exact Or.inl (readline_nil_iff hr)
      · obtain ⟨m, hm, h'⟩ := scanLines_succ hr hl h
        obtain ⟨-, hlast, -, -⟩ := scanLine_ok hm
        obtain ⟨hlt, hs⟩ := length_readline hr hl
        rcases scanLines_ends h' (by omega) with rfl | hrest
        · rw [hs, List.append_nil]
          exact Or.inr hlast
        · have hne : rest ≠ [] := by rintro rfl; simp at hrest
          rw [hs, List.getLast?_append_of_ne_nil _ hne]
          exact Or.inr hrest

theorem scan_ends {s : Bytes} {out : List PyStr} (h : scan s = .ok out) :
    s = [] ∨ s.getLast? = some newline := by
  unfold scan at h
  split at h
  · exact absurd h (by simp)
  · exact scanLines_ends h (Nat.le_refl _)

/-- The last line is cut: something stands after the last line break. -/
def Torn (s : Bytes) : Prop := s ≠ [] ∧ s.getLast? ≠ some newline

instance (s : Bytes) : Decidable (Torn s) := inferInstanceAs (Decidable (_ ∧ _))

/-- **A torn ledger is refused.** -/
theorem scan_torn {s : Bytes} (h : Torn s) : ∀ out, scan s ≠ .ok out := by
  intro out hs
  rcases scan_ends hs with h1 | h1
  · exact h.1 h1
  · exact h.2 h1

/-- **An accepted ledger stays accepted** when a record of a new nonce is appended
within the capacity. -/
theorem scan_append_record {s line : Bytes} {out : List PyStr} {n : PyStr}
    (h : scan s = .ok out) (hline : IsLine line) (hn : scanLine line out = .ok n)
    (hsize : s.length + line.length < maxLedgerBytes) :
    scan (s ++ line) = .ok (n :: out) := by
  unfold scan at h ⊢
  rw [List.length_append, if_neg (by omega)]
  rw [if_neg (by omega)] at h
  exact scanLines_append hline h (Nat.le_refl _) hn

theorem recorded_append_line {s line : Bytes} {n : PyStr} (hs : s = [] ∨ s.getLast? = some newline)
    (hline : IsLine line) (hn : scanLine line [] = .ok n) : Recorded n (s ++ line) :=
  ⟨s, line, [], by simp, hs, hline, hn⟩

/-! ## The record -/

omit [Nesting] in
theorem digitCp_plain (n : Nat) : Plain [digitCp (n % 10)] := by
  intro c hc
  obtain rfl := List.mem_singleton.mp hc
  have := digitCp_val (Nat.mod_lt n (show 0 < 10 by decide))
  omega

omit [Nesting] in
theorem plain_pad2 (n : Nat) : Plain (pad2 n) :=
  (digitCp_plain _).append (digitCp_plain _)

omit [Nesting] in
theorem plain_pad4 (n : Nat) : Plain (pad4 n) :=
  (((digitCp_plain _).append (digitCp_plain _)).append (digitCp_plain _)).append (digitCp_plain _)

omit [Nesting] in
theorem plain_stamp (t : Instant) : Plain (stamp t) := by
  have hd : Plain (lit "-") := plain_lit (by decide)
  have hc : Plain (lit ":") := plain_lit (by decide)
  have hT : Plain (lit "T") := plain_lit (by decide)
  have hZ : Plain (lit "Z") := plain_lit (by decide)
  unfold stamp civilText
  dsimp only
  exact ((((((((((((plain_pad4 _).append hd).append (plain_pad2 _)).append hd).append
    (plain_pad2 _)).append hT).append (plain_pad2 _)).append hc).append (plain_pad2 _)).append
    hc).append (plain_pad2 _)).append hZ)

omit [Nesting] in
theorem length_stamp (t : Instant) : (stamp t).length = 20 := rfl

omit [Nesting] in
theorem plain_of_validNonce {s : PyStr} (h : validNonce s = true) : Plain s ∧ s.length ≤ 256 := by
  unfold validNonce at h
  simp only [Bool.and_eq_true, decide_eq_true_eq, List.all_eq_true] at h
  refine ⟨fun c hc => ?_, h.1.2⟩
  have := h.2 c hc
  unfold isPrintable at this
  simp only [Bool.and_eq_true, decide_eq_true_eq] at this
  omega

omit [Nesting] in
theorem plain_of_isSha256 {s : PyStr} (h : isSha256 s = true) : Plain s ∧ s.length = 64 := by
  unfold isSha256 at h
  simp only [Bool.and_eq_true, beq_iff_eq, List.all_eq_true] at h
  refine ⟨fun c hc => ?_, h.1⟩
  have := h.2 c hc
  simp only [Bool.or_eq_true, Bool.and_eq_true, decide_eq_true_eq] at this
  omega

omit [Nesting] in
/-- A time that the broker writes is one the scanner takes. -/
theorem validConsumedAt_stamp (t : Instant) : validConsumedAt (stamp t) = true := by
  have h : zuluText? (stamp t) = some (civilText t ++ lit "+00:00") := by
    unfold zuluText? stamp
    rw [show lit "Z" = [cp 0x5A] from rfl, List.getLast?_append_of_ne_nil _ (by simp),
      List.dropLast_concat]
    rfl
  unfold validConsumedAt
  rw [h]
  dsimp only
  rw [fromisoformat_stamp]
  rfl

omit [Nesting] in
/-- The canonical text of the record. -/
theorem dumps_record (nonce receiptSha256 operationPayloadSha256 : PyStr) (now : Instant) :
    dumps (.obj (recordMembers nonce receiptSha256 operationPayloadSha256 now))
      = some (lit "\x7b\"consumed_at\":" ++ stringText (stamp now) ++ lit ",\"nonce\":"
        ++ stringText nonce ++ lit ",\"operation_payload_sha256\":"
        ++ stringText operationPayloadSha256 ++ lit ",\"receipt_sha256\":"
        ++ stringText receiptSha256 ++ lit "\x7d") := by
  show some (lit "\x7b" ++ joinComma ([(lit "consumed_at", stringText (stamp now)),
    (lit "nonce", stringText nonce),
    (lit "operation_payload_sha256", stringText operationPayloadSha256),
    (lit "receipt_sha256", stringText receiptSha256)].map memberText) ++ lit "\x7d") = _
  simp only [List.map_cons, List.map_nil, joinComma, memberText, List.append_assoc]
  rfl

/-- **The record of valid fields** is one line within the limit, read back as its nonce. -/
theorem encodeRecord_spec {nonce receiptSha256 operationPayloadSha256 : PyStr} (now : Instant)
    (hn : validNonce nonce = true) (hr : isSha256 receiptSha256 = true)
    (ho : isSha256 operationPayloadSha256 = true) :
    ∃ record, encodeRecord nonce receiptSha256 operationPayloadSha256 now = .ok record
      ∧ IsLine record ∧ record.length ≤ maxLedgerRecordBytes
      ∧ ∀ seen, nonce ∉ seen → scanLine record seen = .ok nonce := by
  obtain ⟨hnp, hnl⟩ := plain_of_validNonce hn
  obtain ⟨hrp, hrl⟩ := plain_of_isSha256 hr
  obtain ⟨hop, hol⟩ := plain_of_isSha256 ho
  have hdumps := dumps_record nonce receiptSha256 operationPayloadSha256 now
  generalize htext : lit "\x7b\"consumed_at\":" ++ stringText (stamp now) ++ lit ",\"nonce\":"
    ++ stringText nonce ++ lit ",\"operation_payload_sha256\":"
    ++ stringText operationPayloadSha256 ++ lit ",\"receipt_sha256\":"
    ++ stringText receiptSha256 ++ lit "\x7d" = text at hdumps
  have hplain : Plain text := by
    rw [← htext]
    exact ((((((((plain_lit (by decide)).append (plain_stamp now).stringText).append
      (plain_lit (by decide))).append hnp.stringText).append (plain_lit (by decide))).append
      hop.stringText).append (plain_lit (by decide))).append hrp.stringText).append
      (plain_lit (by decide))
  have hlen : text.length + 1 ≤ maxLedgerRecordBytes := by
    have h1 := length_stringText (plain_stamp now)
    have h2 := length_stringText hnp
    have h3 := length_stringText hop
    have h4 := length_stringText hrp
    rw [length_stamp] at h1
    have e1 : (lit "\x7b\"consumed_at\":").length = 15 := rfl
    have e2 : (lit ",\"nonce\":").length = 9 := rfl
    have e3 : (lit ",\"operation_payload_sha256\":").length = 28 := rfl
    have e4 : (lit ",\"receipt_sha256\":").length = 18 := rfl
    have e5 : (lit "\x7d").length = 1 := rfl
    rw [← htext]
    simp only [List.length_append, e1, e2, e3, e4, e5, maxLedgerRecordBytes]
    omega
  have henc : utf8Encode text = some (text.map fun c => byte c.val) :=
    utf8Encode_ascii hplain.isAscii
  have hline : IsLine (text.map (fun c => byte c.val) ++ [newline]) := by
    refine ⟨_, rfl, ?_⟩
    intro hmem
    obtain ⟨c, hc, he⟩ := List.mem_map.mp hmem
    have hv := congrArg Fin.val he
    have := hplain c hc
    simp [newline] at hv
    omega
  have hparse : loads Nesting.record text
      = .ok (.obj [(lit "consumed_at", .str (stamp now)), (lit "nonce", .str nonce),
        (lit "operation_payload_sha256", .str operationPayloadSha256),
        (lit "receipt_sha256", .str receiptSha256)]) := by
    unfold loads
    have hdepth : depth (.obj (recordMembers nonce receiptSha256 operationPayloadSha256 now)) = 1 :=
      rfl
    rw [parse_dumps hdumps (by rw [hdepth]; exact Nesting.record_pos)]
    rfl
  refine ⟨_, ?_, hline, ?_, ?_⟩
  · unfold encodeRecord canonicalBytes
    rw [hdumps, Option.bind_some, henc]
  · rw [List.length_append, List.length_map]
    exact hlen
  · intro seen hseen
    have hload : loadsRecord (text.map (fun c => byte c.val) ++ [newline])
        = .ok (.obj [(lit "consumed_at", .str (stamp now)), (lit "nonce", .str nonce),
          (lit "operation_payload_sha256", .str operationPayloadSha256),
          (lit "receipt_sha256", .str receiptSha256)]) := by
      unfold loadsRecord
      rw [List.dropLast_concat, utf8Decode_utf8Encode henc]
      dsimp only
      rw [hparse]
    have hvalid : validLedgerRecord (.obj [(lit "consumed_at", .str (stamp now)),
        (lit "nonce", .str nonce), (lit "operation_payload_sha256", .str operationPayloadSha256),
        (lit "receipt_sha256", .str receiptSha256)]) = some nonce := by
      generalize hm : [(lit "consumed_at", Json.str (stamp now)), (lit "nonce", .str nonce),
        (lit "operation_payload_sha256", .str operationPayloadSha256),
        (lit "receipt_sha256", .str receiptSha256)] = m
      have h1 : keysEq m ledgerRecordFields = true := by rw [← hm]; rfl
      have h2 : get (lit "nonce") m = .str nonce := by rw [← hm]; rfl
      have h3 : get (lit "receipt_sha256") m = .str receiptSha256 := by rw [← hm]; rfl
      have h4 : get (lit "operation_payload_sha256") m = .str operationPayloadSha256 := by
        rw [← hm]; rfl
      have h5 : get (lit "consumed_at") m = .str (stamp now) := by rw [← hm]; rfl
      unfold validLedgerRecord validNonceFields
      dsimp only
      rw [h1, h2, h3, h4, h5]
      simp only [strWith, hn, hr, ho, validConsumedAt_stamp, Bool.and_self, if_true]
    unfold scanLine
    rw [if_neg, hload]
    · dsimp only
      rw [hvalid]
      dsimp only
      rw [if_neg hseen]
    · rw [List.length_append, List.length_map, List.length_singleton]
      simp
      omega

end SddGov.Broker
