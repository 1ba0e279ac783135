import SddGov.Effect.Grows
import SddGov.Governance.Locked
import SddGov.Governance.Resolution
import SddGov.Governance.Traces

/-!
# The life of an external action

The queue under any number of calls of `enqueue_external_action` and
`resolve_external_action`, in any interleaving. What a call may make of the
rows is `RowsEvolve`: rows are added at the end, and a pending one may end,
once and with its identity kept. `GoodRows` is the invariant, every row valid
and one row for an action.

Beside the queue the ghost state remembers which call created an action and
which one ended it by a receipt, so that what a call reports is a fact about
the whole run (`action_lifecycle`).
-/

namespace SddGov.Governance

open SddGov.Effect SddGov.Python

variable {C : Crypto}

/-! ## Valid rows -/

/-- What `_validate_external_action_row` accepts. -/
structure RowOk (C : Crypto) (row : Members) : Prop where
  base : ∀ f ∈ externalActionBaseFields, hasKey (lit f) row = true
  within : keysWithin row ((externalActionBaseFields ++ externalActionResolutionFields).map lit)
    = true
  texts : ∀ f ∈ ["action_id", "summary", "owner", "scope"], (text? (get (lit f) row)).isSome = true
  risk : memberOfSet (get (lit "risk_level") row) (["L1", "L2", "L3"].map lit) = .ok true
  actionClass : memberOfSet (get (lit "action_class") row)
    [lit "operational_action", lit "necessary_uat"] = .ok true
  authorization : get (lit "authorization_scope") row = .str (lit "one concrete action only")
  timestamps : validTimestamps row = true
  digest : ∃ sha, externalActionRequestSha256 C (get (lit "action_id") row)
    (get (lit "summary") row)
      (get (lit "risk_level") row) (get (lit "owner") row) (get (lit "action_class") row)
      (get (lit "scope") row) = .ok sha ∧ get (lit "request_sha256") row = .str sha
  status : ∃ s ∈ ["pending", "completed", "cancelled", "expired"].map lit,
    get (lit "status") row = .str s ∧ checkResolutionFields s row = .ok ()

theorem requireTexts_ok {before after : String} {row : Members} {fields : List String} {u : Unit} :
    requireTexts before after row fields = .ok u
      ↔ ∀ f ∈ fields, (text? (get (lit f) row)).isSome = true := by
  induction fields with
  | nil => simp [requireTexts]
  | cons f fields ih =>
    rw [requireTexts]
    split
    · next h => simp [ih, h]
    · next h => simp [h]

theorem memberOfSet_ok {v : Json} {names : List PyStr} :
    memberOfSet v names = .ok true ↔ ∃ s ∈ names, v = .str s := by
  cases v <;> simp [memberOfSet]

theorem require_true (message : String) : require true message = .ok () := rfl

theorem missing_none {row : Members} {fields : List String} :
    fields.find? (fun f => !hasKey (lit f) row) = none ↔
    ∀ f ∈ fields, hasKey (lit f) row = true := by
  simp [List.find?_eq_none]

/-- What a valid row of the queue is, field by field. -/
theorem validateExternalActionRow_ok {row : Members} :
    validateExternalActionRow C (.obj row) = .ok () ↔ RowOk C row := by
  constructor
  · intro h
    unfold validateExternalActionRow at h
    dsimp only at h
    split at h
    · next hmissing =>
      exact absurd h (by simp [Bind.bind, Except.bind])
    · next hmissing =>
    obtain ⟨_, hwithin, h⟩ := except_bind_ok.mp h
    obtain ⟨_, htexts, h⟩ := except_bind_ok.mp h
    obtain ⟨risk, hrisk, h⟩ := except_bind_ok.mp h
    obtain ⟨_, hrisk', h⟩ := except_bind_ok.mp h
    obtain ⟨cls, hcls, h⟩ := except_bind_ok.mp h
    obtain ⟨_, hcls', h⟩ := except_bind_ok.mp h
    obtain ⟨st, hst, h⟩ := except_bind_ok.mp h
    obtain ⟨_, hst', h⟩ := except_bind_ok.mp h
    obtain ⟨_, hauth, h⟩ := except_bind_ok.mp h
    obtain ⟨_, htimes, h⟩ := except_bind_ok.mp h
    obtain ⟨sha, hsha, h⟩ := except_bind_ok.mp h
    obtain ⟨_, hdigest, hfields⟩ := except_bind_ok.mp h
    obtain rfl : risk = true := require_ok.mp hrisk'
    obtain rfl : cls = true := require_ok.mp hcls'
    obtain rfl : st = true := require_ok.mp hst'
    obtain ⟨s, hs, hstatus⟩ := memberOfSet_ok.mp hst
    rw [hstatus] at hfields
    exact {
      base := missing_none.mp hmissing
      within := require_ok.mp hwithin
      texts := requireTexts_ok.mp htexts
      risk := hrisk
      actionClass := hcls
      authorization := (pyEq_str_right _ _).mp (require_ok.mp hauth)
      timestamps := require_ok.mp htimes
      digest := ⟨sha, hsha, (pyEq_str_right _ _).mp (require_ok.mp hdigest)⟩
      status := ⟨s, hs, hstatus, hfields⟩ }
  · intro h
    obtain ⟨s, hs, hstatus, hfields⟩ := h.status
    obtain ⟨sha, hsha, hdigest⟩ := h.digest
    have hst : memberOfSet (get (lit "status") row)
        (["pending", "completed", "cancelled", "expired"].map lit) = .ok true :=
      memberOfSet_ok.mpr ⟨s, hs, hstatus⟩
    have htexts : requireTexts "external action row " " is required" row
        ["action_id", "summary", "owner", "scope"] = .ok () := requireTexts_ok.mpr h.texts
    unfold validateExternalActionRow
    dsimp only
    rw [missing_none.mpr h.base, h.within, htexts, h.risk, h.actionClass, hst, h.authorization,
      h.timestamps, hsha, hdigest, hstatus]
    have hsame (t : PyStr) : pyEq (.str t) (.str t) = true := (pyEq_str_right _ _).mpr rfl
    simp only [Bind.bind, Except.bind, require_true, hsame]
    exact hfields

/-! ## Ending a row -/

theorem hasKey_setMember {key k : PyStr} {v : Json} {m : Members} (h : hasKey key m = true) :
    hasKey key (setMember k v m) = true := by
  unfold hasKey at h ⊢
  by_cases hk : key = k
  · subst hk
    rw [lookup_setMember]
    rfl
  · rw [lookup_setMember_ne v m hk]
    exact h

theorem hasKey_setMember_self {k : PyStr} {v : Json} {m : Members} :
    hasKey k (setMember k v m) = true := by
  unfold hasKey
  rw [lookup_setMember]
  rfl

/-- Setting an allowed member keeps the names within. -/
theorem keysWithin_setMember {k : PyStr} {v : Json} {m : Members} {names : List PyStr}
    (h : keysWithin m names = true) (hk : k ∈ names) :
    keysWithin (setMember k v m) names = true := by
  unfold keysWithin keys at h ⊢
  induction m with
  | nil => simpa [setMember] using hk
  | cons kv m ih =>
    obtain ⟨k', v'⟩ := kv
    rw [List.map_cons, List.all_cons, Bool.and_eq_true] at h
    rw [setMember]
    split
    · rw [List.map_cons, List.all_cons, Bool.and_eq_true]
      exact h
    · rw [List.map_cons, List.all_cons, Bool.and_eq_true]
      exact ⟨h.1, ih h.2⟩

section Ended

variable {row : Members} {status resolvedAt receiptSha256 evidenceSha256 envelope : Json}

/-- The fields a row ends with. -/
def endFields : List String :=
  ["status", "resolved_at", "resolution_receipt_sha256", "resolution_evidence_sha256",
    "resolution_envelope"]

/-- Every other field stays as it is. -/
theorem get_endedRow {f : String} (hf : f ∉ endFields) :
    get (lit f) (endedRow status resolvedAt receiptSha256 evidenceSha256 envelope row)
      = get (lit f) row := by
  have hne : ∀ g ∈ endFields, lit f ≠ lit g := fun g hg h => hf (lit_inj.mp h ▸ hg)
  unfold endedRow
  rw [get_setMember_ne _ _ (hne _ (by simp [endFields])),
    get_setMember_ne _ _ (hne _ (by simp [endFields])),
    get_setMember_ne _ _ (hne _ (by simp [endFields])),
      get_setMember_ne _ _ (hne _ (by simp [endFields])),
    get_setMember_ne _ _ (hne _ (by simp [endFields]))]

theorem get_endedRow_status :
    get (lit "status") (endedRow status resolvedAt receiptSha256 evidenceSha256 envelope row)
      = status := by
  simp [endedRow, get_setMember, get_setMember_ne]

theorem get_endedRow_resolvedAt :
    get (lit "resolved_at") (endedRow status resolvedAt receiptSha256 evidenceSha256 envelope row)
      = resolvedAt := by
  simp [endedRow, get_setMember, get_setMember_ne]

theorem get_endedRow_receipt :
    get (lit "resolution_receipt_sha256")
      (endedRow status resolvedAt receiptSha256 evidenceSha256 envelope row) = receiptSha256 := by
  simp [endedRow, get_setMember, get_setMember_ne]

theorem get_endedRow_evidence :
    get (lit "resolution_evidence_sha256")
      (endedRow status resolvedAt receiptSha256 evidenceSha256 envelope row) = evidenceSha256 := by
  simp [endedRow, get_setMember, get_setMember_ne]

theorem get_endedRow_envelope :
    get (lit "resolution_envelope")
      (endedRow status resolvedAt receiptSha256 evidenceSha256 envelope row) = envelope := by
  simp [endedRow, get_setMember]

/-- An ended row is valid where it carries the proof its status asks for. -/
theorem RowOk.ended (h : RowOk C row) {s : PyStr}
    (hs : s ∈ ["pending", "completed", "cancelled", "expired"].map lit)
    (hfields : checkResolutionFields s
      (endedRow (.str s) resolvedAt receiptSha256 evidenceSha256 envelope row) = .ok ()) :
    RowOk C (endedRow (.str s) resolvedAt receiptSha256 evidenceSha256 envelope row) := by
  have hget (f : String) (hf : f ∉ endFields) :
      get (lit f) (endedRow (.str s) resolvedAt receiptSha256 evidenceSha256 envelope row)
        = get (lit f) row := get_endedRow hf
  constructor
  · intro f hf
    unfold endedRow
    iterate 5 apply hasKey_setMember
    exact h.base f hf
  · unfold endedRow
    iterate 5 refine keysWithin_setMember ?_ (List.mem_map_of_mem (by decide))
    exact h.within
  · intro f hf
    rw [hget f (by revert f; decide)]
    exact h.texts f hf
  · rw [hget _ (by decide)]
    exact h.risk
  · rw [hget _ (by decide)]
    exact h.actionClass
  · rw [hget _ (by decide)]
    exact h.authorization
  · have htimes := h.timestamps
    unfold validTimestamps at htimes ⊢
    rw [hget _ (by decide), hget _ (by decide)]
    exact htimes
  · obtain ⟨sha, hsha, hrow⟩ := h.digest
    refine ⟨sha, ?_, ?_⟩
    · rw [hget _ (by decide), hget _ (by decide), hget _ (by decide), hget _ (by decide),
        hget _ (by decide), hget _ (by decide)]
      exact hsha
    · rw [hget _ (by decide)]
      exact hrow
  · exact ⟨s, hs, get_endedRow_status, hfields⟩

end Ended

/-! ## The rows the programs write -/

/-- The row of an action whose time is over is valid. -/
theorem RowOk.expired {row : Members} (h : RowOk C row) (t : Instant) :
    RowOk C (expiredRow row t) := by
  have hfields : checkResolutionFields (lit "expired")
      (endedRow (.str (lit "expired")) (.str (stamp t)) .null .null .null row) = .ok () := by
    have hat := text?_stamp t
    simp [checkResolutionFields, get_endedRow_resolvedAt, get_endedRow_receipt,
      get_endedRow_evidence,
      get_endedRow_envelope, anyPresent, externalActionResolutionFields, hat,
        require_true, Bind.bind,
      Except.bind]
  exact h.ended (by simp) hfields

/-- What the arguments of a resolution are once they are checked. -/
structure Resolution.Ok (r : Resolution) : Prop where
  status : ∃ s ∈ [lit "completed", lit "cancelled"], r.status = .str s
  actionId : (text? r.actionId).isSome = true
  resolvedAt : (text? r.resolvedAt).isSome = true
  receipt : isHexDigest r.receiptSha256 = true
  evidence : isHexDigest r.evidenceSha256 = true
  envelope : isObject r.envelope = true

theorem requireDigests_ok {before after : String} {row : Members} {fields : List String}
    {u : Unit} :
    requireDigests before after row fields = .ok u
      ↔ ∀ f ∈ fields, isHexDigest (get (lit f) row) = true := by
  induction fields with
  | nil => simp [requireDigests]
  | cons f fields ih =>
    rw [requireDigests]
    split
    · next h => simp [ih, h]
    · next h => simp [h]

/-- What an accepted resolution is. -/
theorem checkResolution_ok {r : Resolution} {u : Unit} (h : checkResolution r = .ok u) : r.Ok := by
  obtain ⟨known, hknown, h⟩ := except_bind_ok.mp h
  obtain ⟨_, hk, h⟩ := except_bind_ok.mp h
  obtain ⟨_, htexts, h⟩ := except_bind_ok.mp h
  obtain ⟨_, hdigests, henvelope⟩ := except_bind_ok.mp h
  obtain rfl : known = true := require_ok.mp hk
  have htext (f : String) (hf : f
    ∈ ["action_id", "action_class", "owner", "scope", "resolved_at"]) :=
    requireTexts_ok.mp htexts f hf
  have hdigest (f : String) (hf : f ∈ ["request_sha256", "resolution_receipt_sha256",
    "resolution_evidence_sha256"]) := requireDigests_ok.mp hdigests f hf
  have hid := htext "action_id" (by simp)
  have hat := htext "resolved_at" (by simp)
  have hreceipt := hdigest "resolution_receipt_sha256" (by simp)
  have hevidence := hdigest "resolution_evidence_sha256" (by simp)
  simp [Resolution.fields, Python.get, lookup] at hid hat hreceipt hevidence
  exact ⟨memberOfSet_ok.mp hknown, hid, hat, hreceipt, hevidence, require_ok.mp henvelope⟩

/-- The row of a resolved action is valid. -/
theorem RowOk.resolved {row : Members} (h : RowOk C row) {r : Resolution} (hr : r.Ok) :
    RowOk C (resolvedRow r row) := by
  obtain ⟨s, hs, hstatus⟩ := hr.status
  have hterminal : s = lit "completed" ∨ s = lit "cancelled" := by simpa using hs
  have hkey (f : String) (hf : f ∈ externalActionResolutionFields) : hasKey (lit f)
      (endedRow (.str s) r.resolvedAt r.receiptSha256 r.evidenceSha256 r.envelope row) = true := by
    simp only [externalActionResolutionFields, List.mem_cons, List.not_mem_nil, or_false] at hf
    unfold endedRow
    rcases hf with rfl | rfl | rfl | rfl
    · exact hasKey_setMember (hasKey_setMember (hasKey_setMember hasKey_setMember_self))
    · exact hasKey_setMember (hasKey_setMember hasKey_setMember_self)
    · exact hasKey_setMember hasKey_setMember_self
    · exact hasKey_setMember_self
  have hfields : checkResolutionFields s
      (endedRow (.str s) r.resolvedAt r.receiptSha256 r.evidenceSha256 r.envelope row)
        = .ok () := by
    have hall := List.all_eq_true.mpr hkey
    simp only [checkResolutionFields, if_pos hterminal, get_endedRow_resolvedAt,
      get_endedRow_receipt,
      get_endedRow_evidence, get_endedRow_envelope, hr.resolvedAt, hr.receipt, hr.evidence,
        hr.envelope,
      hall, require_true, Bind.bind, Except.bind]
  unfold resolvedRow
  rw [hstatus]
  refine h.ended ?_ hfields
  rcases hterminal with rfl | rfl <;> simp

/-- What the arguments of an action are once they are checked. -/
structure ActionRequest.Ok (req : ActionRequest) (ttl : Int) : Prop where
  risk : req.risk ∈ ["L1", "L2", "L3"].map lit
  actionClass : req.actionClass ∈ [lit "operational_action", lit "necessary_uat"]
  texts : ∀ v ∈ [req.actionId, req.summary, req.owner, req.scope], (text? v).isSome = true
  ttl : 1 ≤ ttl

/-- What an accepted request is. -/
theorem checkActionRequest_ok {req : ActionRequest} {ttl : Int}
    (h : checkActionRequest req = .ok ttl) :
    req.Ok ttl := by
  obtain ⟨_, hkind, h⟩ := except_bind_ok.mp h
  obtain ⟨_, htexts, h⟩ := except_bind_ok.mp h
  have hkind := require_ok.mp hkind
  rw [Bool.and_eq_true, List.contains_iff_mem, List.contains_iff_mem] at hkind
  split at h
  · exact absurd h (by simp)
  · next minutes hminutes =>
    obtain rfl := Except.ok.inj h
    refine ⟨hkind.1, hkind.2, List.all_eq_true.mp (require_ok.mp htexts), ?_⟩
    unfold ttlMinutes? at hminutes
    split at hminutes
    · split at hminutes
      · next hle =>
        obtain rfl := Option.some.inj hminutes
        exact hle.1
      · exact absurd hminutes (by simp)
    · exact absurd hminutes (by simp)

theorem awareMicros?_stamp (t : Instant) : awareMicros? (.str (stamp t))
    = some (t.second.val : Int) := by
  unfold awareMicros?
  dsimp only
  rw [fromisoformat_zulu_stamp]
  simp

/-- A lifetime of a minute or more shows in the stamps. -/
theorem second_lt_of_add? {t t' : Instant} {ttl : Int} (httl : 1 ≤ ttl)
    (h : t.add? (minutes ttl) = some t') : (t.second.val : Int) < t'.second.val := by
  unfold Instant.add? Instant.ofInt? at h
  split at h
  · next hrange =>
    obtain rfl := Option.some.inj h
    unfold Instant.second minutes at *
    dsimp only
    omega
  · exact absurd h (by simp)

/-- The row of a new action is valid. -/
theorem newAction_ok {req : ActionRequest} {ttl : Int} {sha : PyStr} {current : Instant}
    {item : Members}
    (hreq : req.Ok ttl) (hsha : externalActionRequestSha256 C req.actionId req.summary
      (.str req.risk)
      req.owner (.str req.actionClass) req.scope = .ok sha)
    (h : newAction req sha ttl current = .ok item) :
    RowOk C item ∧ get (lit "action_id") item = req.actionId := by
  unfold newAction at h
  split at h
  · exact absurd h (by simp)
  · next expiry hexpiry =>
    obtain rfl := Except.ok.inj h
    have htext {v : Json} (hv : v ∈ [req.actionId, req.summary, req.owner, req.scope]) :=
      hreq.texts v hv
    refine ⟨?_, by simp [Python.get, lookup]⟩
    constructor
    · simp [externalActionBaseFields, hasKey, lookup]
    · simp [keysWithin, keys, externalActionBaseFields, externalActionResolutionFields]
    · intro f hf
      simp only [List.mem_cons, List.not_mem_nil, or_false] at hf
      rcases hf with rfl | rfl | rfl | rfl <;>
        simp [Python.get, lookup] <;> exact htext (by simp)
    · exact memberOfSet_ok.mpr ⟨req.risk, hreq.risk, by simp [Python.get, lookup]⟩
    · exact memberOfSet_ok.mpr ⟨req.actionClass, hreq.actionClass, by simp [Python.get, lookup]⟩
    · simp [Python.get, lookup]
    · have hlt := second_lt_of_add? hreq.ttl hexpiry
      simpa [validTimestamps, Python.get, lookup, awareMicros?_stamp] using hlt
    · exact ⟨sha, by simpa [Python.get, lookup] using hsha, by simp [Python.get, lookup]⟩
    · refine ⟨lit "pending", by simp, by simp [Python.get, lookup], ?_⟩
      simp [checkResolutionFields, anyPresent, externalActionResolutionFields, Python.get,
        lookup, require]

/-! ## What becomes of the rows -/

/-- The action a row is of. -/
def actionIdOf : Json → Json
  | .obj m => get (lit "action_id") m
  | _ => .null

/-- A pending row has ended, and is the same action as before. -/
structure Ended (row row' : Members) : Prop where
  pending : get (lit "status") row = .str (lit "pending")
  terminal : ∃ s ∈ [lit "completed", lit "cancelled", lit "expired"],
    get (lit "status") row' = .str s
  identity : ∀ f ∈ externalActionBaseFields, f ≠ "status" → get (lit f) row' = get (lit f) row

/-- What a row can become. -/
inductive RowStep : Json → Json → Prop
  | same (row : Json) : RowStep row row
  | ended {row row' : Members} (h : Ended row row') : RowStep (.obj row) (.obj row')

/-- Every row is valid, and no two are of one action. -/
structure GoodRows (C : Crypto) (rows : List Json) : Prop where
  valid : ∀ row ∈ rows, validateExternalActionRow C row = .ok ()
  distinct : Distinct actionIdOf rows

theorem Ended.not_pending {row row' : Members} (h : Ended row row') :
    get (lit "status") row' ≠ .str (lit "pending") := by
  obtain ⟨s, hs, hstatus⟩ := h.terminal
  rw [hstatus]
  intro heq
  rw [Json.str.inj heq] at hs
  simp at hs

theorem RowStep.actionIdOf {a b : Json} (h : RowStep a b) : actionIdOf b = actionIdOf a := by
  cases h with
  | same => rfl
  | ended h => exact h.identity "action_id" (by simp [externalActionBaseFields]) (by simp)

theorem RowStep.trans {a b c : Json} (h : RowStep a b) (h' : RowStep b c) : RowStep a c := by
  cases h with
  | same => exact h'
  | ended h =>
    cases h' with
    | same => exact .ended h
    | ended h' => exact absurd h'.pending h.not_pending

/-- A row that has ended stays as it is. -/
theorem RowStep.eq_of_ended {row : Members} {b : Json} (h : RowStep (.obj row) b)
    (hrow : get (lit "status") row ≠ .str (lit "pending")) : b = .obj row := by
  cases h with
  | same => rfl
  | ended h => exact absurd h.pending hrow

theorem GoodRows.row {rows : List Json} (h : GoodRows C rows) {row : Json} (hrow : row ∈ rows) :
    ∃ m, row = .obj m ∧ RowOk C m := by
  have hvalid := h.valid row hrow
  cases row with
  | obj m => exact ⟨m, rfl, validateExternalActionRow_ok.mp hvalid⟩
  | _ => exact absurd hvalid (by simp [validateExternalActionRow])

/-- The row of an action is found by its text. -/
theorem isAction_iff {a row : Json} (ha : (text? a).isSome = true) :
    isAction a row = true ↔ actionIdOf row = a := by
  cases a with
  | str s =>
    cases row with
    | obj m => exact pyEq_str_right _ _
    | _ => simp [isAction, actionIdOf]
  | _ => exact absurd ha (by simp [text?])

theorem isAction_row {a : Json} {row : Members} (ha : (text? a).isSome = true) :
    isAction a (.obj row) = true ↔ get (lit "action_id") row = a := isAction_iff ha

/-- A row ends in its place. -/
theorem GoodRows.ended {rows : List Json} (h : GoodRows C rows) {a : Json}
    (ha : (text? a).isSome = true) {row row' : Members} (hmem : .obj row ∈ rows)
    (hid : get (lit "action_id") row = a) (he : Ended row row') (hok : RowOk C row') :
    GoodRows C (rows.map fun x => if isAction a x then .obj row' else x)
      ∧ Grows RowStep rows (rows.map fun x => if isAction a x then .obj row' else x)
      ∧ .obj row' ∈ rows.map fun x => if isAction a x then .obj row' else x := by
  have hone : ∀ x ∈ rows, isAction a x = true → x = .obj row := by
    intro x hx hax
    exact h.distinct.eq hx hmem (((isAction_iff ha).mp hax).trans hid.symm)
  have hstep : ∀ x ∈ rows, RowStep x (if isAction a x then .obj row' else x) := by
    intro x hx
    by_cases hax : isAction a x = true
    · rw [if_pos hax, hone x hx hax]
      exact .ended he
    · rw [if_neg hax]
      exact .same x
  refine ⟨⟨?_, ?_⟩, Grows.map hstep, ?_⟩
  · intro y hy
    obtain ⟨x, hx, rfl⟩ := List.mem_map.mp hy
    split
    · exact validateExternalActionRow_ok.mpr hok
    · exact h.valid x hx
  · exact h.distinct.map fun x hx => (hstep x hx).actionIdOf
  · exact List.mem_map.mpr ⟨.obj row, hmem, if_pos ((isAction_row ha).mpr hid)⟩

/-- A row of a new action comes at the end. -/
theorem GoodRows.added {rows : List Json} (h : GoodRows C rows) {item : Members}
    (hok : RowOk C item)
    (hnew : ∀ x ∈ rows, actionIdOf x ≠ get (lit "action_id") item) :
    GoodRows C (rows ++ [.obj item]) := by
  refine ⟨?_, h.distinct.append hnew⟩
  intro x hx
  rcases List.mem_append.mp hx with hx | hx
  · exact h.valid x hx
  · obtain rfl := List.mem_singleton.mp hx
    exact validateExternalActionRow_ok.mpr hok

/-! ## The queue -/

/-- The rows of the queue; a queue that does not exist has none. -/
def queueRows (content : Option Json) : List Json :=
  (externalActionRows (content.getD (actionStore []))).toOption.getD []

/-- The queue can be loaded, and its rows are good. -/
def GoodQueue (C : Crypto) (content : Option Json) : Prop :=
  externalActionRows (content.getD (actionStore [])) = .ok (queueRows content)
    ∧ GoodRows C (queueRows content)

theorem externalActionRows_actionStore (rows : List Json) :
    externalActionRows (actionStore rows) = .ok rows := by
  have hnew : pyEq (.str (lit "1.1")) (.str (lit "1.0")) = false := by
    rw [← Bool.not_eq_true, pyEq_str_right]
    simp
  have hsame : pyEq (.str (lit "1.1")) (.str (lit "1.1")) = true := (pyEq_str_right _ _).mpr rfl
  unfold externalActionRows actionStore
  simp [pyEq, pyEqMembers, lookup, Python.get, keysEq, keys, scalarEq, hnew, hsame]

theorem queueRows_some (rows : List Json) : queueRows (some (actionStore rows)) = rows := by
  unfold queueRows
  rw [Option.getD_some, externalActionRows_actionStore]
  rfl

theorem GoodRows.queue {rows : List Json} (h : GoodRows C rows) :
    GoodQueue C (some (actionStore rows)) := by
  unfold GoodQueue
  rw [queueRows_some]
  exact ⟨externalActionRows_actionStore rows, h⟩

/-- Which call created an action, and which one ended it. -/
structure Credits (ι : Type) where
  creator : Json → Option ι
  ender : Json → Option ι

variable {ι : Type}

/-- Whoever has credit for an action has left its row. -/
structure Credited (C : Crypto) (σ : Option Json × Credits ι) : Prop where
  queue : GoodQueue C σ.1
  created : ∀ a i, σ.2.creator a = some i → ∃ row ∈ queueRows σ.1, actionIdOf row = a
  ended : ∀ a i, σ.2.ender a = some i → ∃ m, .obj m ∈ queueRows σ.1
    ∧ get (lit "action_id") m = a ∧ get (lit "status") m ≠ .str (lit "pending")

/-- The rows have grown, and credit once given stays. -/
structure QueueEvolves (σ σ' : Option Json × Credits ι) : Prop where
  rows : Grows RowStep (queueRows σ.1) (queueRows σ'.1)
  creator : ∀ a i, σ.2.creator a = some i → σ'.2.creator a = some i
  ender : ∀ a i, σ.2.ender a = some i → σ'.2.ender a = some i

/-- The contract of the queue. -/
def queueContract (ι : Type) (C : Crypto) : Contract (Option Json) (Credits ι) where
  good := Credited C
  evolves := QueueEvolves
  refl _ := ⟨Grows.refl RowStep.same _, fun _ _ h => h, fun _ _ h => h⟩
  trans _ _ _ h h' := ⟨h.rows.trans (R := RowStep) (fun _ _ _ => RowStep.trans) h'.rows,
    fun a i hi => h'.creator a i (h.creator a i hi),
    fun a i hi => h'.ender a i (h.ender a i hi)⟩

/-- The rows have grown and nobody gets credit. -/
theorem Credited.grown {σ : Option Json × Credits ι} (h : Credited C σ) {rows : List Json}
    (hgood : GoodRows C rows) (hgrows : Grows RowStep (queueRows σ.1) rows) :
    Credited C (some (actionStore rows), σ.2)
      ∧ QueueEvolves σ (some (actionStore rows), σ.2) := by
  refine ⟨⟨hgood.queue, ?_, ?_⟩, ⟨?_, fun _ _ h => h, fun _ _ h => h⟩⟩
  · intro a i hi
    obtain ⟨row, hrow, hid⟩ := h.created a i hi
    obtain ⟨row', hrow', hstep⟩ := hgrows.row hrow
    exact ⟨row', by rwa [queueRows_some], hstep.actionIdOf.trans hid⟩
  · intro a i hi
    obtain ⟨m, hm, hid, hstatus⟩ := h.ended a i hi
    obtain ⟨row', hrow', hstep⟩ := hgrows.row hm
    obtain rfl := hstep.eq_of_ended hstatus
    exact ⟨m, by rwa [queueRows_some], hid, hstatus⟩
  · rw [queueRows_some]
    exact hgrows

theorem validateRows_ok {rows : List Json} {u : Unit} (h : validateRows C rows = .ok u) :
    ∀ row ∈ rows, validateExternalActionRow C row = .ok () := by
  induction rows with
  | nil => simp
  | cons row rows ih =>
    obtain ⟨_, hrow, hrest⟩ := except_bind_ok.mp h
    intro x hx
    rcases List.mem_cons.mp hx with rfl | hx
    · exact hrow
    · exact ih hrest x hx

/-! ## Queueing an action -/

section Programs

variable [DecidableEq ι] {i : ι}

/-- The queue as it was read: nobody replaces it while the lock is held. -/
def HasRows (rows : List Json) (σ : Option Json × Credits ι) : Prop := queueRows σ.1 = rows

/-- Loading the rows hands on those of the guarded file. -/
theorem triple_loadRows {P : Option Json × Credits ι → Prop} {α : Type}
    {f : List Json → HostProg α} {Q : α → Option Json × Credits ι → Prop}
    (hf : ∀ rows, Triple (queueContract ι C) (fileGuard .externalActions .externalActions) i
      (HasRows rows) (f rows) Q) :
    Triple (queueContract ι C) (fileGuard .externalActions .externalActions) i P
      ((readJson .externalActions (actionStore [])).handle
        (fun data => (Prog.ofExcept (externalActionRows data)).handle f .raise) .raise) Q := by
  apply triple_readJson.bind
  intro data
  apply Triple.ofExcept_bind
  intro rows hrows
  refine (hf rows).mono ?_ fun _ _ h => h
  rintro σ ⟨-, rfl⟩
  unfold HasRows queueRows
  rw [hrows]
  rfl

/-- A write that ends one row: the call gets the credit, for nobody had it before. -/
theorem triple_endRow {rows : List Json} {a : Json} (ha : (text? a).isSome = true)
    {row row' : Members}
    (hmem : .obj row ∈ rows) (hid : get (lit "action_id") row = a) (he : Ended row row')
    (hok : RowOk C row') :
    Triple (queueContract ι C) (fileGuard .externalActions .externalActions) i (HasRows rows)
      (writeJson .externalActions
        (actionStore (rows.map fun x => if isAction a x then .obj row' else x)))
      fun _ σ => .obj row' ∈ queueRows σ.1 ∧ σ.2.ender a = some i := by
  apply triple_writeJson
  rintro σ hgood rfl
  obtain ⟨hrows, hgrows, hin⟩ := hgood.queue.2.ended ha hmem hid he hok
  obtain ⟨hcredit, hevolves⟩ := hgood.grown hrows hgrows
  have hid' : get (lit "action_id") row' = a :=
    (he.identity "action_id" (by simp [externalActionBaseFields]) (by simp)).trans hid
  -- a row that has credit for its end was not pending
  have hnone : σ.2.ender a = none := by
    by_contra hsome
    obtain ⟨j, hj⟩ := Option.ne_none_iff_exists'.mp hsome
    obtain ⟨m, hm, hmid, hstatus⟩ := hgood.ended a j hj
    have heq := hgood.queue.2.distinct.eq hm hmem (hmid.trans hid.symm)
    exact hstatus (Json.obj.inj heq ▸ he.pending)
  refine ⟨{ σ.2 with ender := Function.update σ.2.ender a (some i) },
    ⟨hcredit.queue, hcredit.created, ?_⟩,
    ⟨hevolves.rows, hevolves.creator, ?_⟩, by rwa [queueRows_some], Function.update_self ..⟩
  · intro b j hj
    by_cases hba : b = a
    · exact ⟨row', by rwa [queueRows_some], hid'.trans hba.symm, he.not_pending⟩
    · have hj : Function.update σ.2.ender a (some i) b = some j := hj
      rw [Function.update_of_ne hba] at hj
      exact hcredit.ended b j hj
  · intro b j hj
    by_cases hba : b = a
    · rw [hba, hnone] at hj
      exact absurd hj (by simp)
    · show Function.update _ _ _ _ = _
      rw [Function.update_of_ne hba]
      exact hj

/-- A write that adds a row: the call gets the credit for the action. -/
theorem triple_addRow {rows : List Json} {item : Members} (hok : RowOk C item)
    (hnew : ∀ x ∈ rows, actionIdOf x ≠ get (lit "action_id") item) :
    Triple (queueContract ι C) (fileGuard .externalActions .externalActions) i (HasRows rows)
      (writeJson .externalActions (actionStore (rows ++ [.obj item])))
      fun _ σ => σ.2.creator (get (lit "action_id") item) = some i := by
  apply triple_writeJson
  rintro σ hgood rfl
  obtain ⟨hcredit, hevolves⟩ := hgood.grown (hgood.queue.2.added hok hnew)
    (Grows.append RowStep.same _ _)
  have hnone : σ.2.creator (get (lit "action_id") item) = none := by
    by_contra hsome
    obtain ⟨j, hj⟩ := Option.ne_none_iff_exists'.mp hsome
    obtain ⟨row, hrow, hid⟩ := hgood.created _ j hj
    exact hnew row hrow hid
  refine ⟨{ σ.2 with creator := Function.update σ.2.creator (get (lit "action_id") item) (some i) },
    ⟨hcredit.queue, ?_, hcredit.ended⟩, ⟨hevolves.rows, ?_, hevolves.ender⟩,
      Function.update_self ..⟩
  · intro b j hj
    by_cases hb : b = get (lit "action_id") item
    · exact ⟨.obj item, by rw [queueRows_some]; simp, hb.symm⟩
    · have hj : Function.update σ.2.creator (get (lit "action_id") item) (some i) b = some j := hj
      rw [Function.update_of_ne hb] at hj
      exact hcredit.created b j hj
  · intro b j hj
    by_cases hb : b = get (lit "action_id") item
    · rw [hb, hnone] at hj
      exact absurd hj (by simp)
    · show Function.update _ _ _ _ = _
      rw [Function.update_of_ne hb]
      exact hj

/-- What a call that says it has created the action leaves behind. -/
def CreatedBy (i : ι) (req : ActionRequest) (m : Members) (σ : Option Json × Credits ι) : Prop :=
  get (lit "external_action_created") m = .bool true → σ.2.creator req.actionId = some i

theorem get_withCreated (row : Members) (created : Bool) :
    get (lit "external_action_created") (withCreated row created) = .bool created :=
  get_setMember ..

omit [DecidableEq ι] in
theorem createdBy_false {req : ActionRequest} {row : Members} {σ : Option Json × Credits ι} :
    CreatedBy i req (withCreated row false) σ := by
  intro h
  rw [get_withCreated] at h
  exact absurd h (by simp)

theorem still_event {eventType risk : PyStr} {payload : Json} {P : Option Json × Credits ι → Prop} :
    Triple (queueContract ι C) (fileGuard .externalActions .externalActions) i P
      (emitEvent eventType risk payload) fun _ => P :=
  .still (calls_still (calls_emitEvent id id fun _ => id))

theorem triple_now {P : Option Json × Credits ι → Prop} :
    Triple (queueContract ι C) (fileGuard .externalActions .externalActions) i P (ask .now)
      fun _ => P :=
  .still (calls_still (.perform id))

/-- An action that is in the queue already is answered from its row, and the queue stays as it
is. -/
theorem triple_reuseAction {req : ActionRequest} {rows : List Json} {row : Members}
    (ha : (text? req.actionId).isSome = true) (hrow : .obj row ∈ rows) (hok : RowOk C row)
    (hid : get (lit "action_id") row = req.actionId) :
    Triple (queueContract ι C) (fileGuard .externalActions .externalActions) i (HasRows rows)
      (reuseAction req rows row) (CreatedBy i req) := by
  unfold reuseAction
  split
  · exact .ret fun _ _ => createdBy_false
  · next hpending =>
    have hpending : get (lit "status") row = .str (lit "pending") :=
      (pyEq_str_right _ _).mp (by simpa using hpending)
    split
    · exact .raise
    · apply triple_now.bind
      intro current
      dsimp only
      split
      · apply triple_now.bind
        intro resolvedAt
        have he : Ended row (expiredRow row resolvedAt) :=
          ⟨hpending, ⟨lit "expired", by simp, get_endedRow_status⟩, fun f hf hne =>
            get_endedRow (by revert f; decide)⟩
        apply (triple_endRow ha hrow hid he (hok.expired resolvedAt)).bind
        intro _
        exact still_event.bind fun _ => .ret fun _ _ => createdBy_false
      · exact .ret fun _ _ => createdBy_false

/-- A new action becomes one pending row behind the others. -/
theorem triple_createAction {req : ActionRequest} {rows : List Json} {sha : PyStr} {ttl : Int}
    (hreq : req.Ok ttl) (hsha : externalActionRequestSha256 C req.actionId req.summary
      (.str req.risk)
      req.owner (.str req.actionClass) req.scope = .ok sha)
    (hnew : rows.filter (isAction req.actionId) = []) :
    Triple (queueContract ι C) (fileGuard .externalActions .externalActions) i (HasRows rows)
      (createAction req rows sha ttl) (CreatedBy i req) := by
  apply triple_now.bind
  intro current
  apply Triple.ofExcept_bind
  intro item hitem
  obtain ⟨hok, hid⟩ := newAction_ok hreq hsha hitem
  have ha : (text? req.actionId).isSome = true := hreq.texts _ (by simp)
  have hfresh : ∀ x ∈ rows, actionIdOf x ≠ get (lit "action_id") item := by
    intro x hx heq
    have hmatch := (isAction_iff ha).mpr (heq.trans hid)
    have hin : x ∈ rows.filter (isAction req.actionId) := List.mem_filter.mpr ⟨hx, hmatch⟩
    rw [hnew] at hin
    exact absurd hin (by simp)
  apply (triple_addRow hok hfresh).bind
  intro _
  apply still_event.bind
  intro _
  apply Triple.ret
  intro σ hcredit _
  rw [← hid]
  exact hcredit

/-- What `findAction` has found: every row is valid, and the one of the action, if there is one. -/
theorem findAction_cases {req : ActionRequest} {rows : List Json} {existing : Option Members}
    {sha : PyStr} (h : findAction C req rows = .ok (existing, sha)) :
    (∀ row ∈ rows, validateExternalActionRow C row = .ok ())
      ∧ externalActionRequestSha256 C req.actionId req.summary (.str req.risk) req.owner
        (.str req.actionClass) req.scope = .ok sha
      ∧ rows.filter (isAction req.actionId) = existing.toList.map .obj := by
  obtain ⟨_, hvalid, h⟩ := except_bind_ok.mp h
  obtain ⟨sha', hsha, h⟩ := except_bind_ok.mp h
  refine ⟨validateRows_ok hvalid, ?_⟩
  split at h
  · next hrows =>
    obtain ⟨rfl, rfl⟩ := Prod.mk.inj (Except.ok.inj h)
    exact ⟨hsha, hrows⟩
  · next row hrows =>
    split at h
    · obtain ⟨rfl, rfl⟩ := Prod.mk.inj (Except.ok.inj h)
      exact ⟨hsha, hrows⟩
    · exact absurd h (by simp)
  · exact absurd h (by simp)

/-- Enqueuing keeps the queue, whichever of the two it does. -/
theorem triple_enqueueUnlocked (req : ActionRequest) :
    Triple (queueContract ι C) (fileGuard .externalActions .externalActions) i (fun _ => True)
      (enqueueUnlocked C req) (CreatedBy i req) := by
  apply Triple.ofExcept_bind
  intro ttl hcheck
  have hreq := checkActionRequest_ok hcheck
  have ha : (text? req.actionId).isSome = true := hreq.texts _ (by simp)
  apply triple_loadRows
  intro rows
  apply Triple.ofExcept_bind
  rintro ⟨existing, sha⟩ hfind
  obtain ⟨hvalid, hsha, hrows⟩ := findAction_cases hfind
  cases existing with
  | none => exact triple_createAction hreq hsha hrows
  | some row =>
    have hin : Json.obj row ∈ rows.filter (isAction req.actionId) := by
      rw [hrows]
      exact List.mem_singleton.mpr rfl
    obtain ⟨hmem, hmatch⟩ := List.mem_filter.mp hin
    exact triple_reuseAction ha hmem (validateExternalActionRow_ok.mp (hvalid _ hmem))
      ((isAction_row ha).mp hmatch)

/-! ## Resolving an action -/

/-- What a resolution leaves behind: the row it reports, which has ended as the call asked, and
the credit for the end where the call reports a change. -/
def ResolvedBy (i : ι) (r : Resolution) (m : Members) (σ : Option Json × Credits ι) : Prop :=
  ∃ row changed, m = withStateChanged row changed ∧ .obj row ∈ queueRows σ.1
    ∧ get (lit "action_id") row = r.actionId ∧ get (lit "status") row = r.status
    ∧ get (lit "resolution_receipt_sha256") row = r.receiptSha256
    ∧ get (lit "status") row ≠ .str (lit "pending")
    ∧ (changed = true → σ.2.ender r.actionId = some i)

/-- The one row with the id of the resolution. -/
theorem exactAction_ok {r : Resolution} {rows : List Json} {row : Members}
    (h : exactAction C r rows = .ok row) :
    (∀ x ∈ rows, validateExternalActionRow C x = .ok ()) ∧ .obj row ∈ rows
      ∧ isAction r.actionId (.obj row) = true := by
  obtain ⟨_, hvalid, h⟩ := except_bind_ok.mp h
  refine ⟨validateRows_ok hvalid, ?_⟩
  split at h
  · next row' hrows =>
    split at h
    · obtain rfl := Except.ok.inj h
      have hin : Json.obj row' ∈ rows.filter (isAction r.actionId) := by
        rw [hrows]
        exact List.mem_singleton.mpr rfl
      exact List.mem_filter.mp hin
    · exact absurd h (by simp)
  · exact absurd h (by simp)

theorem Resolution.Ok.not_pending {r : Resolution} (hr : r.Ok) :
    r.status ≠ .str (lit "pending") := by
  obtain ⟨s, hs, hstatus⟩ := hr.status
  rw [hstatus]
  intro heq
  rw [Json.str.inj heq] at hs
  simp at hs

theorem Resolution.Ok.ended {r : Resolution} (hr : r.Ok) {row : Members}
    (hpending : get (lit "status") row = .str (lit "pending")) : Ended row (resolvedRow r row) := by
  obtain ⟨s, hs, hstatus⟩ := hr.status
  refine ⟨hpending, ⟨s, ?_, get_endedRow_status.trans hstatus⟩, fun f hf hne => ?_⟩
  · simp only [List.mem_cons, List.not_mem_nil, or_false] at hs ⊢
    exact hs.imp_right .inl
  · exact get_endedRow (by revert f; decide)

/-- A digest is a text, so Python's `==` with it is identity. -/
theorem eq_of_pyEq_digest {v w : Json} (hw : isHexDigest w = true) (h : pyEq v w = true) :
    v = w := by
  cases w with
  | str s => exact (pyEq_str_right _ _).mp h
  | _ => exact absurd hw (by simp [isHexDigest])

/-- Resolving moves one pending row to its end, and leaves the others as they are. -/
theorem triple_resolveUnlocked {r : Resolution} (hr : r.Ok) :
    Triple (queueContract ι C) (fileGuard .externalActions .externalActions) i (fun _ => True)
      (resolveUnlocked C r) (ResolvedBy i r) := by
  apply triple_loadRows
  intro rows
  apply Triple.ofExcept_bind
  intro row hrow
  obtain ⟨hvalid, hmem, hmatch⟩ := exactAction_ok hrow
  have hid : get (lit "action_id") row = r.actionId := (isAction_row hr.actionId).mp hmatch
  have hok := validateExternalActionRow_ok.mp (hvalid _ hmem)
  split
  · next hsame =>
    obtain ⟨s, -, hs⟩ := hr.status
    have hstatus : get (lit "status") row = r.status := by
      rw [hs] at hsame ⊢
      exact (pyEq_str_right _ _).mp hsame
    apply Triple.ofExcept
    intro m hm σ hrows
    unfold reapply at hm
    split at hm
    · next hreceipt =>
      obtain rfl := Except.ok.inj hm
      have hin : Json.obj row ∈ queueRows σ.1 := by rwa [show queueRows σ.1 = rows from hrows]
      exact ⟨row, false, rfl, hin, hid, hstatus, eq_of_pyEq_digest hr.receipt hreceipt,
        hstatus ▸ hr.not_pending, fun h => absurd h (by simp)⟩
    · exact absurd hm (by simp)
  · apply Triple.ofExcept_bind
    intro _ hcheck
    obtain ⟨_, hpending, -⟩ := except_bind_ok.mp hcheck
    have hpending := (pyEq_str_right _ _).mp (require_ok.mp hpending)
    apply (triple_endRow hr.actionId hmem hid (hr.ended hpending) (hok.resolved hr)).bind
    intro _
    apply still_event.bind
    intro _
    apply Triple.ret
    rintro σ ⟨hin, hcredit⟩
    refine ⟨_, true, rfl, hin, ?_, get_endedRow_status, get_endedRow_receipt, ?_, fun _ => hcredit⟩
    · exact ((hr.ended hpending).identity "action_id" (by simp [externalActionBaseFields])
        (by simp)).trans hid
    · exact (hr.ended hpending).not_pending

/-! ## Every run -/

omit [DecidableEq ι] in
theorem createdBy_lasting (req : ActionRequest) (m : Members) :
    (queueContract ι C).Lasting (CreatedBy i req m) :=
  fun _ _ hevolves h hcreated => hevolves.creator _ _ (h hcreated)

omit [DecidableEq ι] in
theorem resolvedBy_lasting (r : Resolution) (m : Members) :
    (queueContract ι C).Lasting (ResolvedBy i r m) := by
  rintro σ σ' hevolves ⟨row, changed, hm, hin, hid, hstatus, hreceipt, hended, hcredit⟩
  obtain ⟨row', hin', hstep⟩ := hevolves.rows.row hin
  obtain rfl := hstep.eq_of_ended hended
  exact ⟨row, changed, hm, hin', hid, hstatus, hreceipt, hended,
    fun hc => hevolves.ender _ _ (hcredit hc)⟩

/-- The two calls on the queue. -/
inductive ActionCall
  | enqueue (req : ActionRequest)
  | resolve (r : Resolution)

def ActionCall.prog (C : Crypto) : ActionCall → HostProg Members
  | .enqueue req => enqueueExternalAction C req
  | .resolve r => resolveExternalAction C r

/-- What a finished call leaves behind. -/
def ActionCall.Leaves (i : ι) : ActionCall → Members → Option Json × Credits ι → Prop
  | .enqueue req => CreatedBy i req
  | .resolve r => ResolvedBy i r

/-- The queue with its lock, under calls that can fail at any point. -/
abbrev queueSem : Sem ι (Guarded ι (Option Json)) hostSig :=
  (fileGuard .externalActions .externalActions).sem

/-- A queue, and calls that have not begun; `none` is a process that makes no call. -/
def startActions (C : Crypto) (content : Option Json) (calls : ι → Option ActionCall) :
    Conf ι (Guarded ι (Option Json)) hostSig Exn Members :=
  ⟨⟨content, none⟩, fun i => (calls i).map (ActionCall.prog C)⟩

/-- Every call is safe from every good queue. -/
theorem safe_call (call : ActionCall) {s : Guarded ι (Option Json) × Credits ι}
    (hs : Credited C (shared s)) :
    ((queueContract ι C).discipline (fileGuard .externalActions .externalActions)).Safe i
      (OnOk fun m s => call.Leaves i m (shared s)) (call.prog C) s := by
  cases call with
  | enqueue req =>
    exact safe_withLock (triple_enqueueUnlocked req) (createdBy_lasting req) hs
  | resolve r =>
    show ((queueContract ι C).discipline (fileGuard .externalActions .externalActions)).Safe i _
      ((Prog.ofExcept (checkResolution r)).handle _ .raise) s
    cases hcheck : checkResolution r with
    | error e => exact .raise
    | ok u =>
      exact safe_withLock (triple_resolveUnlocked (checkResolution_ok hcheck))
        (resolvedBy_lasting r) hs

end Programs

/-- What two moments of a run say about the queue, the second after the first. -/
structure Lifecycle (C : Crypto) (calls : ι → Option ActionCall)
    (c₁ c₂ : Conf ι (Guarded ι (Option Json)) hostSig Exn Members) : Prop where
  /-- every row is valid, and there is one row for an action -/
  good : GoodQueue C c₂.world.value
  /-- rows stay, keep their identity, and end once -/
  grows : Grows RowStep (queueRows c₁.world.value) (queueRows c₂.world.value)
  /-- one call at most reports that it has created an action -/
  created : ∀ i j req req' m m', calls i = some (.enqueue req) → calls j = some (.enqueue req') →
    req.actionId = req'.actionId → c₂.threads i = some (.ret m) → c₂.threads j = some (.ret m') →
    get (lit "external_action_created") m = .bool true →
    get (lit "external_action_created") m' = .bool true → i = j
  /-- all resolutions of an action report one row, with the status and the receipt that each of
  them asked for, and one at most reports a change -/
  resolved : ∀ i j r r' m m', calls i = some (.resolve r) → calls j = some (.resolve r') →
    r.actionId = r'.actionId → c₂.threads i = some (.ret m) → c₂.threads j = some (.ret m') →
    ∃ row changed changed', .obj row ∈ queueRows c₂.world.value
      ∧ m = withStateChanged row changed ∧ m' = withStateChanged row changed'
      ∧ r.status = r'.status ∧ r.receiptSha256 = r'.receiptSha256
      ∧ get (lit "status") row = r.status
      ∧ get (lit "resolution_receipt_sha256") row = r.receiptSha256
      ∧ (changed = true → changed' = true → i = j)

/-- A resolution that reports no change replaces nothing. -/
theorem resolve_unchanged {r : Resolution} {t : List (Event hostSig)} {m : Members}
    (h : Runs (resolveExternalAction C r) t (.ok m))
    (hm : get (lit "state_changed") m = .bool false) :
    ∀ e ∈ t, ∀ f v, e.1 ≠ HostOp.replace f v := by
  obtain ⟨t₁, t₂, _, rfl, hcheck, hlock⟩ := runs_bind h
  obtain ⟨rfl, -⟩ := runs_ofExcept hcheck
  obtain ⟨t₃, t₄, t₅, rfl, hbody, haround⟩ := runs_withLock_around hlock
  have hquiet : ∀ e ∈ t₄, ∀ f v, e.1 ≠ HostOp.replace f v := by
    obtain ⟨t₆, t₇, data, rfl, hread, hload⟩ := runs_bind hbody
    obtain ⟨t₈, t₉, rows, rfl, hrows, hexact⟩ := runs_bind hload
    obtain ⟨t₁₀, t₁₁, row, rfl, hrow, hdecide⟩ := runs_bind hexact
    obtain ⟨r', rfl, -⟩ := runs_readJson hread
    obtain ⟨rfl, -⟩ := runs_ofExcept hrows
    obtain ⟨rfl, -⟩ := runs_ofExcept hrow
    split at hdecide
    · obtain ⟨rfl, -⟩ := runs_ofExcept hdecide
      simp
    · obtain ⟨_, _, _, -, -, hwrite⟩ := runs_bind hdecide
      obtain ⟨_, _, _, -, -, hevent⟩ := runs_bind hwrite
      obtain ⟨_, _, _, -, -, hlast⟩ := runs_bind hevent
      obtain rfl := Except.ok.inj (runs_ret hlast).2
      unfold withStateChanged at hm
      rw [get_setMember] at hm
      exact absurd hm (by simp)
  simp only [List.forall_mem_append] at haround ⊢
  exact ⟨by simp, ⟨haround.1, hquiet⟩, haround.2⟩

/-- **The life of an external action**, from a good queue on, over every run of any number of
calls. -/
theorem action_lifecycle [DecidableEq ι] (C : Crypto) {content : Option Json}
    (hgood : GoodQueue C content) (calls : ι → Option ActionCall)
    {c₁ c₂ : Conf ι (Guarded ι (Option Json)) hostSig Exn Members}
    (h₁ : queueSem.Reach (startActions C content calls) c₁) (h₂ : queueSem.Reach c₁ c₂) :
    Lifecycle C calls c₁ c₂
      ∧ ∀ r t m, Runs (resolveExternalAction C r) t (.ok m) →
        get (lit "state_changed") m = .bool false → ∀ e ∈ t, ∀ f v, e.1 ≠ HostOp.replace f v := by
  refine ⟨?_, fun _ _ _ => resolve_unchanged⟩
  let D : Discipline (queueSem : Sem ι (Guarded ι (Option Json)) hostSig) (Credits ι) :=
    (queueContract ι C).discipline (fileGuard .externalActions .externalActions)
  let Q : ι → Outcome Exn Members → Guarded ι (Option Json) × Credits ι → Prop := fun i =>
    OnOk fun m s => ∀ call, calls i = some call → call.Leaves i m (shared s)
  have hstart : Credited C (shared ((⟨content, none⟩ : Guarded ι (Option Json)),
      (⟨fun _ => none, fun _ => none⟩ : Credits ι))) :=
    ⟨hgood, fun _ _ h => absurd h (by simp [shared]), fun _ _ h => absurd h (by simp [shared])⟩
  have hsafe : D.AllSafe Q (startActions C content calls).threads
      (⟨content, none⟩, ⟨fun _ => none, fun _ => none⟩) := by
    intro i p hp
    obtain ⟨call, hcall, rfl⟩ := Option.map_eq_some_iff.mp hp
    refine (safe_call call hstart).mono fun x s _ hx m hm call' hcall' => ?_
    obtain rfl := Option.some.inj (hcall.symm.trans hcall')
    exact hx m hm
  obtain ⟨g₁, hinv₁, hsafe₁, -⟩ := D.run h₁ hstart hsafe
  obtain ⟨g₂, hinv₂, hsafe₂, hevolves⟩ := D.run h₂ hinv₁ hsafe₁
  have hleaves {i : ι} {call : ActionCall} {m : Members} (hcall : calls i = some call)
      (hret : c₂.threads i = some (.ret m)) : call.Leaves i m (c₂.world.value, g₂) :=
    hsafe₂.ended hinv₂ hret m rfl call hcall
  refine ⟨hinv₂.queue, hevolves.rows, ?_, ?_⟩
  · intro i j req req' m m' hi hj hsame hret hret' hcreated hcreated'
    have hcredit : g₂.creator req.actionId = some i := hleaves hi hret hcreated
    have hcredit' : g₂.creator req'.actionId = some j := hleaves hj hret' hcreated'
    rw [← hsame, hcredit] at hcredit'
    exact Option.some.inj hcredit'
  · intro i j r r' m m' hi hj hsame hret hret'
    obtain ⟨row, changed, hm, hin, hid, hstatus, hreceipt, -, hcredit⟩ := hleaves hi hret
    obtain ⟨row', changed', hm', hin', hid', hstatus', hreceipt', -, hcredit'⟩ := hleaves hj hret'
    have hrow : Json.obj row = Json.obj row' :=
      hinv₂.queue.2.distinct.eq hin hin' (hid.trans (hsame.trans hid'.symm))
    obtain rfl := Json.obj.inj hrow
    refine ⟨row, changed, changed', hin, hm, hm', hstatus.symm.trans hstatus',
      hreceipt.symm.trans hreceipt', hstatus, hreceipt, fun hc hc' => ?_⟩
    have hend := hcredit hc
    rw [hsame, hcredit' hc'] at hend
    exact (Option.some.inj hend).symm

/-! ## A run -/

/-- A host on which no call fails, with the queue and its lock as they are. -/
def queueOracle (w : Guarded (Fin 2) (Option Json)) : (o : HostOp) → hostSig.Resp o
  | .readJson .externalActions => .ok w.value
  | .flock .externalActions => if w.holder.isNone then .ok () else .error .other
  | o => CalmHost.answer ⟨⟨63000000000000000, sampleMicros_lt⟩, fun _ =>
      .ok none, fun _ => [], []⟩ o

/-- The oracle of the sample answers as a guarded file may. -/
theorem queueOracle_allowed (i : Fin 2) (w : Guarded (Fin 2) (Option Json)) (o : HostOp) :
    queueSem.allows i w o (queueOracle w o) := by
  cases o with
  | readJson file =>
    cases file with
    | externalActions => exact ⟨fun _ => .inl rfl, fun h => Bool.noConfusion h⟩
    | _ => exact ⟨fun h => absurd h (by simp), fun h => Bool.noConfusion h⟩
  | flock lock =>
    cases lock with
    | externalActions =>
      refine ⟨trivial, fun htaken => ?_⟩
      -- the lock is only given where it is free
      cases hw : w.holder with
      | none => rfl
      | some j => simp [queueOracle, hw, fileGuard] at htaken
    | decisions => exact ⟨trivial, fun h => Bool.noConfusion h⟩
  | _ => exact ⟨trivial, fun h => Bool.noConfusion h⟩

def sampleActionRequest : ActionRequest :=
  ⟨.str (lit "rotate-key"), .str (lit "rotate the key"), lit "L1", .str (lit "owner"),
    .str (lit "vault"), .int 60, lit "operational_action"⟩

/-- The form of the request that its digest is of. -/
def sampleActionForm : Json :=
  .obj [(lit "action_id", .str (lit "rotate-key")), (lit "summary", .str (lit "rotate the key")),
    (lit "risk_level", .str (lit "L1")), (lit "owner", .str (lit "owner")),
    (lit "action_class", .str (lit "operational_action")), (lit "scope", .str (lit "vault"))]

def sampleActionDigest : Nat := 0xe32faca41ea88c3eef253d7fd1913eb7265986bf19f3409fbe0d29d1b352189e

def actionCrypto : Crypto := .ofTables [(canonicalBytes sampleActionForm, sampleActionDigest)] []

/-- Its resolution, with the digests of a receipt and of an evidence file. -/
def sampleResolution : Resolution :=
  ⟨.str (lit "rotate-key"), .str (lit "operational_action"), .str (lit "owner"), .str (lit "vault"),
    .str (hexDigest sampleActionDigest), .str (lit "completed"), .str (lit "1997-05-23T16:30:00Z"),
    .str (hexDigest 0x6f32860910ca0fb2a20c7fda143666b09dbf8db5238195c90a586fb542ff0cad),
    .str (hexDigest 0xee8250fb76e094b34b471f13a73dbbe51d1ae142e9df59d7c0d31ec20f0a0a8e), .obj []⟩

/-- An action is queued by the first process and resolved by the second. -/
def sampleActionCalls : Fin 2 → Option ActionCall
  | 0 => some (.enqueue sampleActionRequest)
  | 1 => some (.resolve sampleResolution)

/-- The configuration in which both have finished. -/
def sampleActionRun : Conf (Fin 2) (Guarded (Fin 2) (Option Json)) hostSig Exn Members :=
  (List.finRange 2).foldl (fun c i => queueSem.driven i queueOracle c)
    (startActions actionCrypto none sampleActionCalls)

/-- The mark a finished process has reported. -/
def reportedMark (mark : String) (p : Option (HostProg Members)) : Bool :=
  match p with
  | some (.ret m) => isTrue (get (lit mark) m)
  | _ => false

theorem goodQueue_none : GoodQueue C none := by
  have hrows : queueRows none = [] := by
    unfold queueRows
    rw [Option.getD_none, externalActionRows_actionStore]
    rfl
  unfold GoodQueue
  rw [hrows]
  exact ⟨externalActionRows_actionStore [], by simp, List.Pairwise.nil⟩

/-- From an empty queue one process creates the action and the other ends it, and all that the
theorem says holds of this run. -/
theorem action_lifecycle_sample :
    reportedMark "external_action_created" (sampleActionRun.threads 0) = true
      ∧ reportedMark "state_changed" (sampleActionRun.threads 1) = true
      ∧ Lifecycle actionCrypto sampleActionCalls (startActions actionCrypto none sampleActionCalls)
        sampleActionRun := by
  have hturns :
    ∀ (turns : List (Fin 2)) (c : Conf (Fin 2) (Guarded (Fin 2) (Option Json)) hostSig Exn Members),
      queueSem.Reach c (turns.foldl (fun c i => queueSem.driven i queueOracle c) c) := by
    intro turns
    induction turns with
    | nil => exact fun c => .refl
    | cons i turns ih => exact fun c => (Sem.driven_reach (queueOracle_allowed i) c).trans (ih _)
  have hreach : queueSem.Reach (startActions actionCrypto none sampleActionCalls) sampleActionRun :=
    hturns _ _
  refine ⟨by decide +kernel, by decide +kernel, ?_⟩
  exact (action_lifecycle actionCrypto goodQueue_none sampleActionCalls .refl hreach).1

end SddGov.Governance
