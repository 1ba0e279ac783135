import SddGov.Autonomy.DecisionStore
import SddGov.Autonomy.ProductDecision
import SddGov.Governance.Isoformat

/-!
# A recorded decision is accepted

What `record_decision` has recorded, `verify_product_decision` and
`evaluate_escalation` accept, whatever else happens, as long as the profile, the
request file and the row of the decision stay as they were. The three build the
same binding from the same bytes; the package of the request, built once more,
is equal to itself because a document without duplicate names is (`loadedEq_self`).
-/

namespace SddGov.Autonomy

open SddGov.Effect SddGov.Python SddGov.Governance

variable {C : Crypto} {t : List (Event hostSig)}

/-! ## A document is equal to itself -/

/-- Where no name is repeated, the names differ from one another and from those seen before. -/
theorem nodup_of_repeated {names seen : List PyStr} (h : repeated seen names = none) :
    names.Nodup ∧ ∀ n ∈ names, n ∉ seen := by
  induction names generalizing seen with
  | nil => simp
  | cons name rest ih =>
    rw [repeated] at h
    split at h
    · exact absurd h (by simp)
    · next hnew =>
      obtain ⟨hrest, hseen⟩ := ih h
      refine ⟨List.nodup_cons.mpr ⟨fun hm => ?_, hrest⟩,
        List.forall_mem_cons.mpr ⟨?_, fun n hn => ?_⟩⟩
      · exact hseen name hm (by simp)
      · simpa using hnew
      · exact fun hold => hseen n hn (by simp [hold])

theorem loadedEqMembers_of {a b : Members}
    (h : ∀ c ∈ a, lookup c.1 b = some c.2 ∧ loadedEq c.2 c.2 = true) :
    loadedEqMembers a b = true := by
  induction a with
  | nil => simp [loadedEqMembers]
  | cons kv a ih =>
    obtain ⟨k, v⟩ := kv
    obtain ⟨⟨hlookup, hsame⟩, hrest⟩ := List.forall_mem_cons.mp h
    dsimp only at hlookup hsame
    rw [loadedEqMembers, hlookup]
    simp [hsame, ih hrest]

/-- An object whose names are different and whose values are equal to themselves. -/
theorem loadedEq_obj {m : Members} (hkeys : (keys m).Nodup) (h : ∀ c ∈ m, loadedEq c.2 c.2 = true) :
    loadedEq (.obj m) (.obj m) = true := by
  rw [loadedEq]
  simp only [beq_self_eq_true, Bool.true_and]
  exact loadedEqMembers_of fun c hc => ⟨lookup_of_mem hkeys hc, h c hc⟩

theorem loadedEq_arr {xs : List Json} (h : ∀ x ∈ xs, loadedEq x x = true) :
    loadedEq (.arr xs) (.arr xs) = true := by
  rw [loadedEq]
  induction xs with
  | nil => rfl
  | cons x xs ih =>
    obtain ⟨hx, hxs⟩ := List.forall_mem_cons.mp h
    simp [loadedEqList, hx, ih hxs]

mutual
/-- A value without a repeated name is equal to itself; `NaN` too, since Python compares the parts
of a container by identity first. -/
theorem loadedEq_self : ∀ {v : Json}, duplicateName v = none → loadedEq v v = true
  | .null, _ => rfl
  | .bool b, _ => by simp [loadedEq, pyEq, scalarEq, Json.num?]
  | .int n, _ => by simp [loadedEq, pyEq, scalarEq, Json.num?]
  | .float .nan, _ => rfl
  | .float (.inf b), _ => by simp [loadedEq, pyEq, scalarEq]
  | .float (.finite b x), _ => by simp [loadedEq, pyEq, scalarEq, Json.num?, PyFloat.value?]
  | .str s, _ => by simp [loadedEq, pyEq, scalarEq]
  | .arr xs, h => loadedEq_arr (loadedEqList_self (by simpa [duplicateName] using h))
  | .obj m, h => by
    rw [duplicateName, Option.or_eq_none_iff] at h
    exact loadedEq_obj (nodup_of_repeated h.2).1 (loadedEqMembers_self h.1)

theorem loadedEqList_self : ∀ {xs : List Json}, duplicateNameList xs = none →
    ∀ x ∈ xs, loadedEq x x = true
  | [], _ => by simp
  | x :: xs, h => by
    rw [duplicateNameList, Option.or_eq_none_iff] at h
    exact List.forall_mem_cons.mpr ⟨loadedEq_self h.1, loadedEqList_self h.2⟩

theorem loadedEqMembers_self : ∀ {m : Members}, duplicateNameMembers m = none →
    ∀ c ∈ m, loadedEq c.2 c.2 = true
  | [], _ => by simp
  | (k, v) :: m, h => by
    rw [duplicateNameMembers, Option.or_eq_none_iff] at h
    exact List.forall_mem_cons.mpr ⟨loadedEq_self h.1, loadedEqMembers_self h.2⟩
end

/-- A member of an object without a repeated name has none either. -/
theorem duplicateName_get {m : Members} (hm : duplicateName (.obj m) = none) (key : PyStr) :
    duplicateName (get key m) = none := by
  have hmembers : duplicateNameMembers m = none := by
    rw [duplicateName, Option.or_eq_none_iff] at hm
    exact hm.1
  clear hm
  unfold Python.get
  induction m with
  | nil => rfl
  | cons kv m ih =>
    obtain ⟨k, v⟩ := kv
    rw [duplicateNameMembers, Option.or_eq_none_iff] at hmembers
    rw [lookup]
    split
    · exact hmembers.1
    · exact ih hmembers.2

/-- The elements of an array without a repeated name are equal to themselves. -/
theorem elements_self {v : Json} (hv : duplicateName v = none) {xs : List Json}
    (h : elements v = .ok xs) : ∀ x ∈ xs, loadedEq x x = true := by
  cases v with
  | arr ys =>
    obtain rfl := Except.ok.inj h
    exact loadedEqList_self (by simpa [duplicateName] using hv)
  | str s =>
    obtain rfl := Except.ok.inj h
    intro x hx
    obtain ⟨c, -, rfl⟩ := List.mem_map.mp hx
    exact loadedEq_self rfl
  | obj m =>
    obtain rfl := Except.ok.inj h
    intro x hx
    obtain ⟨c, -, rfl⟩ := List.mem_map.mp hx
    exact loadedEq_self rfl
  | _ => exact absurd h (by simp [elements])

/-- Stripping gives strings. -/
theorem strippedItems_str {items verified : List Json} (h : strippedItems items = .ok verified) :
    ∀ x ∈ verified, ∃ s, x = .str s := by
  induction items generalizing verified with
  | nil =>
    obtain rfl := Except.ok.inj h
    simp
  | cons item items ih =>
    obtain ⟨text, -, h⟩ := except_bind_ok.mp h
    obtain ⟨others, hothers, h⟩ := except_bind_ok.mp h
    obtain rfl := Except.ok.inj h
    split
    · exact ih hothers
    · exact List.forall_mem_cons.mpr ⟨⟨text, rfl⟩, ih hothers⟩

/-- A package names no member twice. -/
theorem packageMembers_keys (input : Members) (verified options : List Json) :
    (keys (packageMembers input verified options)).Nodup := by
  unfold packageMembers
  generalize get (lit "operation_payload") input = payload
  cases payload with
  | null =>
    show (["heading", "decision_id", "risk_level", "why_human_input_is_required",
      "what_agent_already_verified", "options", "recommended", "why", "impact_if_no_decision",
      "scope_of_approval"].map lit).Nodup
    decide
  | _ =>
    show (["heading", "decision_id", "risk_level", "why_human_input_is_required",
      "what_agent_already_verified", "options", "recommended", "why", "impact_if_no_decision",
      "scope_of_approval", "operation_payload"].map lit).Nodup
    decide

/-- A package built from a document without duplicate names is equal to itself. -/
theorem package_self {input package : Members} (hinput : duplicateName (.obj input) = none)
    (h : buildActionRequired C input = .ok package) :
    loadedEq (.obj package) (.obj package) = true := by
  unfold buildActionRequired at h
  obtain ⟨_, -, h⟩ := except_bind_ok.mp h
  obtain ⟨_, -, h⟩ := except_bind_ok.mp h
  obtain ⟨_, -, h⟩ := except_bind_ok.mp h
  obtain ⟨_, -, h⟩ := except_bind_ok.mp h
  obtain ⟨verified, hverified, h⟩ := except_bind_ok.mp h
  obtain ⟨options, hoptions, h⟩ := except_bind_ok.mp h
  obtain ⟨_, -, h⟩ := except_bind_ok.mp h
  obtain ⟨_, -, h⟩ := except_bind_ok.mp h
  obtain ⟨_, -, h⟩ := except_bind_ok.mp h
  obtain ⟨_, -, h⟩ := except_bind_ok.mp h
  obtain ⟨_, -, h⟩ := except_bind_ok.mp h
  obtain ⟨_, -, h⟩ := except_bind_ok.mp h
  dsimp only at h
  split at h
  · obtain rfl := Except.ok.inj h
    refine loadedEq_obj (packageMembers_keys input verified options) fun c hc => ?_
    have hfield (key : PyStr) : loadedEq (get key input) (get key input) = true :=
      loadedEq_self (duplicateName_get hinput key)
    have htexts : loadedEq (.arr verified) (.arr verified) = true := by
      refine loadedEq_arr fun x hx => ?_
      obtain ⟨s, rfl⟩ := strippedItems_str hverified x hx
      exact loadedEq_self rfl
    have hchoices : loadedEq (.arr options) (.arr options) = true :=
      loadedEq_arr (elements_self (duplicateName_get hinput _) hoptions)
    unfold packageMembers at hc
    rcases List.mem_append.mp hc with hc | hc
    · simp only [List.mem_cons, List.not_mem_nil, or_false] at hc
      rcases hc with rfl | rfl | rfl | rfl | rfl | rfl | rfl | rfl | rfl | rfl
      · exact loadedEq_self rfl
      · exact hfield _
      · exact hfield _
      · exact hfield _
      · exact htexts
      · exact hchoices
      · exact hfield _
      · exact hfield _
      · exact hfield _
      · exact hfield _
    · have hpayload := hfield (lit "operation_payload")
      generalize get (lit "operation_payload") input = payload at hc hpayload
      cases payload with
      | null => exact absurd hc (by simp)
      | _ =>
        rw [List.mem_singleton] at hc
        rw [hc]
        exact hpayload
  · exact absurd h (by simp)

/-! ## What was recorded -/

/-- What `record_decision` has checked of the arguments and of the bytes of the request file. -/
structure PlainBinding (C : Crypto) (d : PlainDecision) (raw : Bytes) (label : PyStr) : Prop where
  path : (!d.requestPath.isEmpty && !d.requestPath.contains (cp 0) && isRelativePath d.requestPath)
    = true
  arguments : checkPlainDecision d = .ok label
  request : checkPlainRequest C raw d.decisionId d.scope label = .ok ()

/-- A binding is made of the profile and of the request file, both as they were read in this run. -/
theorem bindPlainDecision_ok {d : PlainDecision} {profile digest : PyStr}
    (h : Runs (bindPlainDecision C d) t (.ok (profile, digest))) :
    profile = lit "team-standard" ∧ ∃ project raw label,
      (⟨.readJson .project, .ok (some (.obj project))⟩ : Event hostSig) ∈ t
      ∧ get (lit "profile") project = .str (lit "team-standard")
      ∧ (⟨.readSnapshot d.requestPath, .ok raw⟩ : Event hostSig) ∈ t
      ∧ PlainBinding C d raw label ∧ digest = C.sha256 raw := by
  obtain ⟨t₁, t₂, profile', rfl, hprofile, h⟩ := runs_bind h
  obtain ⟨t₃, t₄, _, rfl, hteam, h⟩ := runs_bind h
  obtain ⟨t₅, t₆, label, rfl, hlabel, h⟩ := runs_bind h
  obtain ⟨t₇, t₈, digest', rfl, hbinding, hret⟩ := runs_bind h
  obtain ⟨rfl, rfl⟩ := Prod.mk.inj (Except.ok.inj (runs_ret hret).2)
  obtain ⟨t₉, t₁₀, _, rfl, hpath, h⟩ := runs_bind hbinding
  obtain ⟨t₁₁, t₁₂, raw, rfl, hread, h⟩ := runs_bind h
  obtain ⟨t₁₃, t₁₄, _, rfl, hcheck, hlast⟩ := runs_bind h
  obtain ⟨project, hproject, hmember⟩ := projectProfile_ok hprofile
  obtain ⟨t₁₅, hsnapshot, hsub⟩ := runs_withSnapshot hread
  have hraw := hsub _ (runs_readSnapshot hsnapshot)
  have hstandard : profile = lit "team-standard" := by
    simpa using require_ok.mp (runs_ofExcept hteam).2.symm
  subst hstandard
  refine ⟨rfl, project, raw, label, by simp [hproject], hmember, by simp [hraw], ⟨?_, ?_, ?_⟩,
    Except.ok.inj (runs_ret hlast).2⟩
  · exact require_ok.mp (runs_ofExcept hpath).2.symm
  · exact (runs_ofExcept hlabel).2.symm
  · exact (runs_ofExcept hcheck).2.symm

/-- The store after `record_decision`, as it was written. -/
theorem recordPlainDecision_ok {d : PlainDecision} {profile digest : PyStr} {u : Unit}
    (h : Runs (recordPlainDecision d profile digest) t (.ok u)) :
    ∃ data store recordedAt, decisionStore? data = some store
      ∧ (∀ row ∈ store.decisions, hasDecisionId d.decisionId row = false)
      ∧ (⟨.replace .decisions (store.withRows
        (store.decisions ++ [plainRow d profile digest recordedAt])), .ok ()⟩ : Event hostSig)
        ∈ t := by
  obtain ⟨t₁, t₂, store, rfl, hstore, hlast⟩ := runs_bind h
  obtain ⟨t₃, t₄, data, rfl, -, hcheck⟩ := runs_bind hstore
  have hdata := (runs_ofExcept hcheck).2.symm
  split at hlast
  · exact absurd (runs_raise hlast).2 (by simp)
  · next hnew =>
    obtain ⟨t₅, t₆, recordedAt, rfl, -, hwrite⟩ := runs_bind hlast
    obtain ⟨t₇, t₈, _, rfl, -, hwrite⟩ := runs_bind hwrite
    obtain ⟨t₉, t₁₀, _, rfl, -, hwrite⟩ := runs_bind hwrite
    obtain ⟨r, rfl, hr⟩ := runs_ask (runs_sys hwrite)
    obtain rfl := Except.ok.inj hr
    refine ⟨data, store, recordedAt, ?_, ?_, by simp⟩
    · unfold checkStore at hdata
      split at hdata
      · exact absurd hdata (by simp)
      · next hsome =>
        obtain rfl := Except.ok.inj hdata
        exact hsome
    · simpa using hnew

/-- The row of a decision, with what it was bound to. -/
structure RecordedRow (C : Crypto) (d : PlainDecision) (raw : Bytes) (label : PyStr)
    (row : Members) : Prop where
  binding : PlainBinding C d raw label
  fields : keysEq row (plainDecisionFields.map lit) = true
  level : get (lit "risk_level") row = .str (lit "L2")
  status : get (lit "status") row = .str (lit "approved")
  mode : get (lit "approval_mode") row = .str (lit "plain_language_owner_choice")
  profile : get (lit "profile") row = .str (lit "team-standard")
  approver : get (lit "approved_by") row = .str (lit "project_owner")
  reopen : get (lit "reopen_condition") row = .str (lit "scope_or_assumptions_change")
  id : get (lit "decision_id") row = d.decisionId
  scope : get (lit "scope") row = d.scope
  basis : get (lit "basis") row = d.basis
  recordedAt : ∃ instant, get (lit "recorded_at") row = .str (stamp instant)
  path : get (lit "request_path") row = .str d.requestPath
  digest : get (lit "request_sha256") row = .str (C.sha256 raw)

/-- What a plain decision must be: its texts are there, one label is selected, and it is reopened as
the contract says. -/
theorem checkPlainDecision_ok {d : PlainDecision} {label : PyStr}
    (h : checkPlainDecision d = .ok label) :
    (∀ v ∈ [d.decisionId, d.summary, d.scope, d.basis, d.reopenCondition], (text? v).isSome = true)
      ∧ selectedLabel? d.basis = some label
      ∧ d.reopenCondition = .str (lit "scope_or_assumptions_change") := by
  obtain ⟨bounded, hbounded, hrest⟩ := except_bind_ok.mp h
  obtain ⟨_, htrue, hlast⟩ := except_bind_ok.mp hrest
  have hall : bounded = true := require_ok.mp htrue
  rw [hall] at hbounded
  refine ⟨allBoundedText_ok hbounded, ?_⟩
  clear h hrest
  split at hlast
  · exact absurd hlast (by simp)
  · next label' hlabel =>
    obtain ⟨_, hreopen, hlabel'⟩ := except_bind_ok.mp hlast
    obtain rfl := Except.ok.inj hlabel'
    exact ⟨hlabel, (pyEq_str_right _ _).mp (require_ok.mp hreopen)⟩

theorem recordedRow_of {d : PlainDecision} {raw : Bytes} {label : PyStr}
    (hbinding : PlainBinding C d raw label)
    (recordedAt : Instant) :
    RecordedRow C d raw label (plainRow d (lit "team-standard") (C.sha256 raw) recordedAt) := by
  have hreopen := (checkPlainDecision_ok hbinding.arguments).2.2
  refine ⟨hbinding, ?_, ?_, ?_, ?_, ?_, ?_, ?_, ?_, ?_, ?_, ⟨recordedAt, ?_⟩, ?_, ?_⟩
  · rfl
  all_goals simp [plainRow, Python.get, lookup, hreopen]

/-! ## Stamps -/

-- about any text: with a stamp in its place the kernel would evaluate the clock
theorem parseTime_of {s : PyStr} {field : String} {n : Nat}
    (h : fromisoformat (replaceZulu s) = some ⟨n, some 0⟩) {t : Instant} (ht : t.val = n) :
    parseTime (.str s) field = .ok t := by
  have hmicros : (⟨n, some 0⟩ : Parsed).micros 0 = t.val := by
    simp [Parsed.micros, ht]
  unfold parseTime
  dsimp only
  rw [h]
  dsimp only
  rw [hmicros, ofInt?_val]

theorem parseTime_stamp (t : Instant) (field : String) :
    parseTime (.str (stamp t)) field = .ok t.second :=
  parseTime_of (fromisoformat_zulu_stamp t) rfl

/-! ## The request in the file -/

/-- The request that was recorded, as any reader of the bytes has it. -/
structure FileRequest (C : Crypto) (d : PlainDecision) (raw : Bytes) (m input package : Members) :
    Prop where
  loaded : ∀ label, loadUniqueJsonBytes raw label = .ok (.obj m)
  unique : duplicateName (.obj m) = none
  fields : keysEq m (plainRequestFields.map lit) = true
  risk : get (lit "risk_level") m = .str (lit "L2")
  category : get (lit "category") m = .str (lit "product_decision")
  effects : get (lit "effects") m = .obj []
  id : get (lit "decision_id") m = d.decisionId
  scope : get (lit "decision_scope") m = d.scope
  carries : get (lit "decision_package") m = .obj input
  built : buildActionRequired C input = .ok package
  bound : actionRequiredBindingError C (lit "L2") (lit "product_decision") m package = .ok none
  card : ∃ options, requireBoundedAbCard package = .ok options

/-- What is loaded once is loaded under every label, and has no name twice. -/
theorem loadUniqueJsonBytes_ok {raw : Bytes} {label : String} {v : Json}
    (h : loadUniqueJsonBytes raw label = .ok v) :
    duplicateName v = none ∧ ∀ label', loadUniqueJsonBytes raw label' = .ok v := by
  unfold loadUniqueJsonBytes at h ⊢
  dsimp only at h ⊢
  cases htext : utf8Decode raw with
  | none =>
    rw [htext] at h
    exact absurd h (by simp)
  | some text =>
    rw [htext] at h
    dsimp only at h ⊢
    cases hparse : parse recursionLimit text with
    | error e =>
      rw [hparse] at h
      cases e <;> exact absurd h (by simp)
    | ok w =>
      rw [hparse] at h
      dsimp only at h ⊢
      cases hname : duplicateName w with
      | some key =>
        rw [hname] at h
        exact absurd h (by simp)
      | none =>
        rw [hname] at h
        obtain rfl := Except.ok.inj h
        exact ⟨hname, fun _ => rfl⟩

theorem pyEq_noMembers {v : Json} (h : pyEq v (.obj []) = true) : v = .obj [] := by
  cases v with
  | obj m =>
    rw [pyEq, Bool.and_eq_true, beq_iff_eq, List.length_nil] at h
    rw [List.eq_nil_of_length_eq_zero h.1]
  | _ => exact absurd h (by simp [pyEq, scalarEq, Json.num?])

theorem invalidArguments_ok {α : Type} {message : String} {x : Except Exn α} {a : α}
    (h : invalidArguments message x = .ok a) : x = .ok a := by
  unfold invalidArguments at h
  split at h
  · exact absurd h (by simp)
  · exact absurd h (by simp)
  · exact absurd h (by simp)
  · exact absurd h (by simp)
  · exact h

/-- The request file of a binding carries the decision's own input, and its package is built from
that. -/
theorem fileRequest_of {d : PlainDecision} {raw : Bytes} {label : PyStr}
    (hbinding : PlainBinding C d raw label) : ∃ m input package,
    FileRequest C d raw m input package := by
  obtain ⟨htexts, -, -⟩ := checkPlainDecision_ok hbinding.arguments
  obtain ⟨request, hload, hcheck⟩ := except_bind_ok.mp hbinding.request
  obtain ⟨hunique, hloaded⟩ := loadUniqueJsonBytes_ok hload
  split at hcheck
  · next m =>
    obtain ⟨_, hexact, hcheck⟩ := except_bind_ok.mp hcheck
    obtain ⟨package, hpackage, hcheck⟩ := except_bind_ok.mp hcheck
    obtain ⟨bindingError, hbound, hcheck⟩ := except_bind_ok.mp hcheck
    obtain ⟨_, hnone, hcheck⟩ := except_bind_ok.mp hcheck
    obtain ⟨options, hcard, -⟩ := except_bind_ok.mp hcheck
    have hexact := require_ok.mp hexact
    unfold isPlainRequest at hexact
    simp only [Bool.and_eq_true] at hexact
    obtain ⟨⟨⟨⟨⟨hfields, hrisk⟩, hcategory⟩, heffects⟩, hid⟩, hscope⟩ := hexact
    have hnone : bindingError = none := Option.isNone_iff_eq_none.mp (require_ok.mp hnone)
    have hbuilt := invalidArguments_ok hpackage
    cases hinput : get (lit "decision_package") m with
    | obj input =>
      rw [hinput] at hbuilt
      refine ⟨m, input, package, hloaded, hunique, hfields, (pyEq_str_right _ _).mp hrisk,
        (pyEq_str_right _ _).mp hcategory, pyEq_noMembers heffects, ?_, ?_, hinput, hbuilt,
          hnone ▸ hbound,
        options, hcard⟩
      · exact eq_of_pyEq_text (htexts _ (by simp)) hid
      · exact eq_of_pyEq_text (htexts _ (by simp)) hscope
    | _ =>
      rw [hinput] at hbuilt
      exact absurd hbuilt (by simp [buildPackage])
  · exact absurd hcheck (by simp)

namespace FileRequest

variable {d : PlainDecision} {raw : Bytes} {m input package : Members}

/-- The package that is recorded for the request file is the one of the request. -/
theorem recorded (h : FileRequest C d raw m input package) :
    recordedPackage C raw = .ok package := by
  have hitem : item (.obj m) "decision_package" = .ok (.obj input) := by
    have hget := h.carries
    unfold Python.get at hget
    unfold item
    cases hlookup : lookup (lit "decision_package") m with
    | none =>
      rw [hlookup] at hget
      exact absurd hget (by simp)
    | some v =>
      rw [hlookup] at hget
      dsimp only
      rw [hlookup]
      exact congrArg Except.ok hget
  unfold recordedPackage
  refine except_bind_ok.mpr ⟨_, h.loaded _, ?_⟩
  exact except_bind_ok.mpr ⟨_, hitem, h.built⟩

/-- The package of the request is the one that was recorded. -/
theorem incoming (h : FileRequest C d raw m input package) :
    checkIncoming C raw (get (lit "decision_package") m) = .ok () := by
  have hself : loadedEq (.obj package) (.obj package) = true :=
    package_self (by rw [← h.carries]; exact duplicateName_get h.unique _) h.built
  have hbuilt : buildPackage C (.obj input) = .ok package := h.built
  rw [h.carries]
  unfold checkIncoming
  refine except_bind_ok.mpr ⟨package, h.recorded, ?_⟩
  rw [hbuilt]
  exact require_ok.mpr hself

/-- The request keeps within its closed envelope: the fields are those the category allows. -/
theorem within (h : FileRequest C d raw m input package) :
    closedCategoryEnvelopeError (lit "product_decision") m = none := by
  have huat : ¬(lit "product_decision" = lit "necessary_uat"
    ∧ hasKey (lit "machine_verifiable") m) := by
    intro hand
    exact absurd hand.1 (by decide)
  have hallowed : (plainRequestFields.map lit).all ((["risk_level", "category", "effects"].map lit
      ++ categoryFields (lit "product_decision")).contains ·) = true := by decide
  have hwithin : keysWithin m (["risk_level", "category", "effects"].map lit
      ++ categoryFields (lit "product_decision")) = true := by
    have hfields := h.fields
    unfold keysEq at hfields
    rw [Bool.and_eq_true, List.all_eq_true] at hfields
    rw [List.all_eq_true] at hallowed
    unfold keysWithin
    rw [List.all_eq_true]
    intro key hkey
    exact hallowed key (by simpa using hfields.1 key hkey)
  unfold closedCategoryEnvelopeError
  rw [if_neg huat, if_pos hwithin]

/-- The verifier's checks of the request pass on the file that the decision was bound to. -/
theorem checked (h : FileRequest C d raw m input package)
    (hid : (text? d.decisionId).isSome = true) :
    checkProductRequest C raw d.decisionId = .ok m := by
  have hself : pyEq d.decisionId d.decisionId = true := by
    obtain ⟨s, hs⟩ := Option.isSome_iff_exists.mp hid
    rw [eq_of_text? hs]
    exact (pyEq_str_right _ _).mpr rfl
  have hexact : isProductRequest d.decisionId m = true := by
    unfold isProductRequest
    rw [h.risk, h.category, h.effects, h.within, h.id, hself]
    decide
  obtain ⟨options, hcard⟩ := h.card
  unfold checkProductRequest
  refine except_bind_ok.mpr ⟨_, h.loaded _, ?_⟩
  dsimp only
  refine except_bind_ok.mpr ⟨(), require_ok.mpr hexact, ?_⟩
  rw [h.carries]
  dsimp only
  refine except_bind_ok.mpr ⟨package, by rw [h.built]; rfl, ?_⟩
  refine except_bind_ok.mpr ⟨none, h.bound, ?_⟩
  refine except_bind_ok.mpr ⟨(), rfl, ?_⟩
  exact except_bind_ok.mpr ⟨options, hcard, rfl⟩

/-- The request gets through the screening as an L2 product request. -/
theorem screened (h : FileRequest C d raw m input package) :
    ProductRequest m ⟨lit "L2", lit "product_decision", [], m⟩ := by
  have heffects : lookup (lit "effects") m = some (.obj []) := by
    have hget := h.effects
    unfold Python.get at hget
    cases hlookup : lookup (lit "effects") m with
    | none =>
      rw [hlookup] at hget
      exact absurd hget (by simp)
    | some v =>
      rw [hlookup] at hget
      exact congrArg some hget
  have hlevel : ¬lit "L2" ∉ riskLevels := by decide
  have hknown : ¬lit "product_decision" ∉ knownCategories := by decide
  have hnonempty : ¬lit "product_decision" = [] := by decide
  have hread : readRequest m = .ok (.inr ⟨lit "L2", lit "product_decision", [], m⟩) := by
    unfold readRequest
    rw [h.risk, h.category, heffects]
    dsimp only
    rw [if_neg hlevel, if_neg hnonempty, if_neg hknown]
    rfl
  have henvelope : envelopeError ⟨lit "L2", lit "product_decision", [], m⟩ = none := by
    have hlow : (⟨lit "L2", lit "product_decision", [], m⟩ : Request).isLowRisk = false := by
      unfold Request.isLowRisk
      dsimp only
      decide
    unfold envelopeError
    rw [hlow]
    simp only [Bool.false_eq_true, false_and, if_false, Option.map_eq_none_iff]
    exact h.within
  have hcategory : categoryError ⟨lit "L2", lit "product_decision", [], m⟩ = none := by
    rfl
  refine ⟨?_, rfl, rfl, rfl⟩
  unfold screen
  rw [hread]
  dsimp only
  rw [henvelope]
  dsimp only
  rw [hcategory]

end FileRequest

/-! ## Later calls -/

/-- The answers of a host on which the profile, the request file and the rows of the decision are as
they were recorded, and no snapshot fails. -/
def Standing (project : Members) (path : PyStr) (raw : Bytes) (decisionId : Json) (row : Members) :
    Event hostSig → Prop
  | ⟨.readJson .project, r⟩ => r = .ok (some (.obj project))
  | ⟨.readJson .decisions, r⟩ => ∃ data store, r = .ok data
      ∧ checkStore (data.getD noDecisions) = .ok store
    ∧ store.decisions.filter (hasDecisionId decisionId) = [row]
  | ⟨.readSnapshot other, r⟩ => other = path → r = .ok raw
  | ⟨.openSnapshot _, r⟩ => r = .ok ()
  | ⟨.reconcileSnapshot, r⟩ => r = .ok ()
  | _ => True

section Returns

variable {project : Members} {d : PlainDecision} {raw : Bytes} {label : PyStr} {row : Members}

/-- With such answers the program returns, and its result is as `Q` says. -/
abbrev Stands (project : Members) (d : PlainDecision) (raw : Bytes) (row : Members) {α : Type}
    (p : HostProg α) (Q : α → Prop) : Prop :=
  Returns (Standing project d.requestPath raw d.decisionId row) p Q

theorem stands_readSnapshot : Stands project d raw row (raising (ask (.readSnapshot d.requestPath)))
    (· = raw) :=
  Returns.call fun _ hr => .ofExcept (hr rfl) rfl

theorem stands_withSnapshot {α : Type} {root : SnapshotRoot} {body : HostProg α} {Q : α → Prop}
    (h : Stands project d raw row body Q) : Stands project d raw row
    (withSnapshot root body) Q := by
  have hopen : Stands project d raw row (raising (ask (.openSnapshot root))) fun _ => True :=
    Returns.call fun _ hr => .ofExcept hr trivial
  have hclose : Stands project d raw row (raising (ask .reconcileSnapshot)) fun _ => True :=
    Returns.call fun _ hr => .ofExcept hr trivial
  refine hopen.handle fun _ _ => h.handle fun a ha => ?_
  exact hclose.handle fun _ _ => .ret ha

/-- The profile is read as it was. -/
theorem stands_projectProfile (hproject : get (lit "profile") project
    = .str (lit "team-standard")) :
    Stands project d raw row projectProfile (· = lit "team-standard") := by
  have hread : Stands project d raw row (readJson .project .null) (· = .obj project) := by
    refine Returns.handle (Q := (· = some (.obj project)))
      (Returns.call fun _ hr => .ofExcept hr rfl) ?_
    intro data hdata
    subst hdata
    exact .ret rfl
  refine hread.handle fun data hdata => ?_
  subst hdata
  refine .ofExcept ?_ rfl
  dsimp only
  rw [hproject]
  rfl

/-- The row has that profile. -/
theorem stands_checkPlainProfile
    (hproject : get (lit "profile") project = .str (lit "team-standard"))
    (hrow : RecordedRow C d raw label row) :
    Stands project d raw row (noneOnValueError (checkPlainProfile row)) (· = some true) := by
  obtain ⟨recordedAt, hat⟩ := hrow.recordedAt
  have htime : parseTime (get (lit "recorded_at") row) "recorded_at" = .ok recordedAt.second := by
    rw [hat]
    exact parseTime_stamp recordedAt _
  have hcheck : Stands project d raw row (checkPlainProfile row) (· = true) := by
    refine (stands_projectProfile hproject).handle fun profile hprofile => ?_
    subst hprofile
    have hnot : ¬(lit "team-standard" ≠ lit "team-standard") := fun h => h rfl
    rw [if_neg hnot]
    exact Returns.handle (Q := fun _ => True) (.ofExcept htime trivial) fun _ _ => .ret rfl
  refine hcheck.handle fun checked hchecked => ?_
  subst hchecked
  exact .ret rfl

/-- Binding the request again gives the digest on record. -/
theorem stands_plainRequestBinding (hrow : RecordedRow C d raw label row) {incoming : Json}
    (hincoming : checkIncoming C raw incoming = .ok ()) :
    Stands project d raw row
      (plainRequestBinding C d.requestPath (get (lit "decision_id") row)
        (get (lit "scope") row) label incoming)
      (· = C.sha256 raw) := by
  have hread : Stands project d raw row (readRepositoryRegularFile d.requestPath) (· = raw) :=
    stands_withSnapshot stands_readSnapshot
  have hpath := hrow.binding.path
  refine Returns.handle (Q := fun _ => True) (.ofExcept ((require_ok (u := ())).mpr hpath) trivial)
    fun _ _ => ?_
  refine hread.handle fun raw' hraw => ?_
  subst hraw
  rw [hrow.id, hrow.scope]
  refine Returns.handle (Q := fun _ => True) (.ofExcept hrow.binding.request trivial) fun _ _ => ?_
  refine Returns.handle (Q := fun _ => True) (.ofExcept hincoming trivial) fun _ _ => ?_
  exact .ret rfl

/-- The row still matches its own scope, and the package of its request. -/
theorem stands_matches (hC : C.Hex)
    (hproject : get (lit "profile") project = .str (lit "team-standard"))
    (hrow : RecordedRow C d raw label row) {incoming : Json}
    (hincoming : checkIncoming C raw incoming = .ok ()) :
    Stands project d raw row (plainL2ApprovalMatches C row d.scope incoming) (· = true) := by
  obtain ⟨htexts, hlabel, -⟩ := checkPlainDecision_ok hrow.binding.arguments
  have hscope : (text? d.scope).isSome = true := htexts _ (by simp)
  have hscopeSelf : pyEq d.scope d.scope = true := by
    obtain ⟨s, hs⟩ := Option.isSome_iff_exists.mp hscope
    rw [eq_of_text? hs]
    exact (pyEq_str_right _ _).mpr rfl
  have hplain : isPlainRow row d.scope = true := by
    unfold isPlainRow isPlainDecision
    rw [hrow.fields, hrow.level, hrow.status, hrow.mode, hrow.profile, hrow.approver, hrow.reopen,
      hscope, hrow.scope, hscopeSelf]
    decide
  have hselected : selectedLabel? (get (lit "basis") row) = some label := by
    rw [hrow.basis]
    exact hlabel
  have hrequest : recordedRequest? row = some (d.requestPath, C.sha256 raw) := by
    unfold recordedRequest?
    rw [hrow.path, hrow.digest]
    dsimp only
    rw [if_pos (hC raw)]
  unfold plainL2ApprovalMatches
  rw [hplain]
  refine (stands_checkPlainProfile hproject hrow).handle fun profiled hprofiled => ?_
  subst hprofiled
  rw [if_neg fun h => h rfl, hselected, hrequest]
  dsimp only
  refine (stands_plainRequestBinding hrow hincoming).handle fun current hcurrent => ?_
  subst hcurrent
  exact .ret (by simp)

/-- Looking the id up finds the row, whatever else the store has come to hold. -/
theorem stands_findDecision (hid : (text? d.decisionId).isSome = true) :
    Stands project d raw row (findDecision d.decisionId) (· = some row) := by
  have htruthy : truthy d.decisionId = true := by
    obtain ⟨s, hs⟩ := Option.isSome_iff_exists.mp hid
    have hne : s ≠ [] := by
      rintro rfl
      rw [eq_of_text? hs] at hid
      exact absurd hid (by simp [text?, isBlank])
    rw [eq_of_text? hs]
    simp [truthy, hne]
  have hstore : Stands project d raw row decisionStore fun store =>
      store.decisions.filter (hasDecisionId d.decisionId) = [row] := by
    refine Returns.handle (Q := fun data => ∃ store, checkStore data = .ok store
      ∧ store.decisions.filter (hasDecisionId d.decisionId) = [row]) ?_ ?_
    · refine Returns.handle (Q := fun data => ∃ store, checkStore (data.getD noDecisions)
        = .ok store
        ∧ store.decisions.filter (hasDecisionId d.decisionId) = [row])
          (Returns.call fun r hr => ?_) ?_
      · obtain ⟨data, store, hdata, hstore⟩ := hr
        exact .ofExcept hdata ⟨store, hstore⟩
      · intro data hdata
        exact .ret hdata
    · intro data hdata
      obtain ⟨store, hcheck, hrows⟩ := hdata
      exact .ofExcept hcheck hrows
  unfold findDecision
  rw [htruthy]
  refine hstore.handle fun store hrows => .ret ?_
  rw [← List.head?_filter, hrows]
  rfl

/-! ## Both callers accept -/

/-- A digest is in ASCII, and `secrets.compare_digest` takes it. -/
theorem isAscii_sha256 (hC : C.Hex) (raw : Bytes) : isAscii (C.sha256 raw) = true := by
  have h := hC raw
  unfold isSha256 at h
  unfold isAscii
  simp only [Bool.and_eq_true, Bool.or_eq_true, List.all_eq_true, decide_eq_true_eq] at h ⊢
  intro c hc
  have hdigit := h.2 c hc
  omega

/-- `verify_product_decision` accepts the decision at its path. -/
theorem stands_verifyProductDecision (hC : C.Hex)
    (hproject : get (lit "profile") project = .str (lit "team-standard"))
    (hrow : RecordedRow C d raw label row) (signed : Members → Members → Bytes → HostProg Members) :
    Stands project d raw row (verifyProductDecision C signed d.decisionId d.requestPath)
      (· = plainVerified d.decisionId row) := by
  obtain ⟨htexts, -, -⟩ := checkPlainDecision_ok hrow.binding.arguments
  have hid : (text? d.decisionId).isSome = true := htexts _ (by simp)
  obtain ⟨m, input, package, hfile⟩ := fileRequest_of hrow.binding
  have hmode : isPlainDecision row = true := by
    unfold isPlainDecision
    rw [hrow.mode]
    exact (pyEq_str_right _ _).mpr rfl
  have hrecorded : isRecordedFor C row m d.requestPath raw = .ok true := by
    unfold isRecordedFor isRecordedDigest
    rw [hfile.fields, hrow.path, hrow.digest, (pyEq_str_right _ _).mpr rfl]
    simp [isAscii_sha256 hC raw]
  have hpath := hrow.binding.path
  refine Returns.handle (Q := fun _ => True) (.ofExcept ((require_ok (u := ())).mpr hpath) trivial)
    fun _ _ => ?_
  refine stands_withSnapshot (stands_readSnapshot.handle fun raw' hraw => ?_)
  subst hraw
  refine Returns.handle (Q := (· = m)) (.ofExcept (hfile.checked hid) rfl) fun m' hm => ?_
  subst hm
  refine (stands_findDecision hid).handle fun recorded hfound => ?_
  subst hfound
  dsimp only
  rw [if_pos hmode]
  unfold verifyPlain
  refine Returns.handle (Q := (· = true)) (.ofExcept hrecorded rfl) fun isRecorded h => ?_
  subst h
  have hmatches := stands_matches hC hproject hrow hfile.incoming
  rw [← hfile.scope] at hmatches
  refine hmatches.handle fun isMatch hmatch => ?_
  subst hmatch
  exact .ret rfl

/-- `evaluate_escalation` reuses the decision for its request. -/
theorem stands_evaluateReuse (hC : C.Hex)
    (hproject : get (lit "profile") project = .str (lit "team-standard"))
    (hrow : RecordedRow C d raw label row) {m input package : Members}
    (hfile : FileRequest C d raw m input package) :
    Stands project d raw row (evaluateReuse C m) Verdict.Reuses := by
  obtain ⟨htexts, -, -⟩ := checkPlainDecision_ok hrow.binding.arguments
  have hid : (text? d.decisionId).isSome = true := htexts _ (by simp)
  have hrequest := hfile.screened
  have hmode : isPlainDecision row = true := by
    unfold isPlainDecision
    rw [hrow.mode]
    exact (pyEq_str_right _ _).mpr rfl
  have hplain : Stands project d raw row
      ((plainMatches ⟨lit "L2", lit "product_decision", [], m⟩ row).expand (matchers C))
        (· = true) := by
    have hmatches := stands_matches hC hproject hrow hfile.incoming
    rw [← hfile.scope] at hmatches
    unfold plainMatches
    rw [if_pos hmode]
    refine Returns.expand_bind (Q := (· = .ok true)) ?_ fun answer hanswer => ?_
    · have hcall : (ask (.plainDecisionMatches (.obj row) (get (lit "decision_scope") m)
          (get (lit "decision_package") m))).expand (matchers C)
            = answering (plainL2ApprovalMatches C row (get (lit "decision_scope") m)
              (get (lit "decision_package") m)) := expand_perform rfl
      have hanswer : Stands project d raw row (answering (plainL2ApprovalMatches C row
          (get (lit "decision_scope") m) (get (lit "decision_package") m))) (· = .ok true) := by
        refine hmatches.handle fun isMatch hmatch => ?_
        subst hmatch
        exact .ret rfl
      rw [← hcall] at hanswer
      exact hanswer
    · subst hanswer
      exact .ret rfl
  have hreuse : Stands project d raw row
      ((reuseDecision ⟨lit "L2", lit "product_decision", [], m⟩).expand (matchers C))
      fun recorded => ∃ v, recorded = some v ∧ v.Reuses := by
    refine Returns.expand_bind (Q := (· = some row)) ?_ fun recorded hfound => ?_
    · have hfind : (findDecision d.decisionId).expand (matchers C) = findDecision d.decisionId := by
        apply expand_eq_self
        unfold findDecision
        refine .ite trivial (Prog.Calls.bind ?_ fun _ => trivial)
        refine Prog.Calls.bind ?_ fun _ => .ofExcept _
        refine Prog.Calls.bind ?_ fun _ => trivial
        exact Prog.Calls.bind (.perform rfl) fun _ => .ofExcept _
      unfold Request.field
      rw [hfile.id, hfind]
      exact stands_findDecision hid
    · subst hfound
      refine Returns.expand_bind hplain fun plain hmatch => ?_
      subst hmatch
      refine Returns.expand_bind (Q := (· = true)) (.ret rfl) fun isMatch hmatch => ?_
      subst hmatch
      refine .ret ⟨_, rfl, ?_⟩
      unfold reusedVerdict
      rw [Bool.not_true, Bool.and_false]
      exact ⟨rfl, rfl⟩
  unfold evaluateReuse evaluateEscalation
  rw [hrequest.screened]
  dsimp only [Prog.bind_eq, Prog.ofExcept, Prog.handle_ret]
  rw [hrequest.classify_none]
  dsimp only
  unfold decideRequest
  rw [hrequest.onRecord_eq]
  refine Returns.expand_bind hreuse fun recorded hrecorded => ?_
  obtain ⟨v, rfl, hv⟩ := hrecorded
  exact .ret hv

end Returns

/-- What `record_decision` leaves behind: a valid store with one row for the decision, which both
callers accept as long as the profile, the request file and the row are as they were. -/
def Accepted (C : Crypto) (d : PlainDecision) (t : List (Event hostSig)) : Prop :=
  ∃ project raw content store row m,
    (⟨.readJson .project, .ok (some (.obj project))⟩ : Event hostSig) ∈ t
    ∧ (⟨.readSnapshot d.requestPath, .ok raw⟩ : Event hostSig) ∈ t
    ∧ (⟨.replace .decisions content, .ok ()⟩ : Event hostSig) ∈ t
    ∧ checkStore content = .ok store ∧ store.decisions.filter (hasDecisionId d.decisionId) = [row]
    ∧ isPlainDecision row = true ∧ loadUniqueJsonBytes raw "product decision request" = .ok (.obj m)
    ∧ (∀ signed, Returns (Standing project d.requestPath raw d.decisionId row)
      (verifyProductDecision C signed d.decisionId d.requestPath)
        (· = plainVerified d.decisionId row))
    ∧ Returns (Standing project d.requestPath raw d.decisionId row)
      (evaluateReuse C m) Verdict.Reuses

/-- A decision that was recorded is accepted: the run that recorded it made the row, and every later
run finds it. -/
theorem accepted_of_recorded (hC : C.Hex) {d : PlainDecision} {result : Members}
    (h : Runs (recordDecision C d) t (.ok result)) : Accepted C d t := by
  obtain ⟨t₁, t₂, ⟨profile, digest⟩, rfl, hbind, h⟩ := runs_bind h
  obtain ⟨t₃, t₄, _, rfl, hlocked, -⟩ := runs_bind h
  obtain ⟨rfl, project, raw, label, hproject, hprofile, hraw, hbinding, rfl⟩ :=
    bindPlainDecision_ok hbind
  obtain ⟨t₅, t₆, t₇, rfl, hrecord⟩ := runs_withLock hlocked
  obtain ⟨data, store, recordedAt, hstore, hnew, hreplace⟩ := recordPlainDecision_ok hrecord
  have hrow := recordedRow_of hbinding recordedAt
  generalize plainRow d (lit "team-standard") (C.sha256 raw) recordedAt = row at hrow hreplace
  obtain ⟨htexts, -, -⟩ := checkPlainDecision_ok hbinding.arguments
  have hid : (text? d.decisionId).isSome = true := htexts _ (by simp)
  have hrows : ∀ x ∈ store.decisions ++ [row], hasText x "decision_id" = true := by
    intro x hx
    rcases List.mem_append.mp hx with hx | hx
    · exact (decisionStore?_eq.mp hstore).texts x hx
    · rw [List.mem_singleton.mp hx]
      unfold hasText
      rw [hrow.id]
      exact hid
  obtain ⟨store', hstore', hdecisions⟩ := decisionStore?_withRows hstore hrows
  obtain ⟨m, input, package, hfile⟩ := fileRequest_of hbinding
  refine ⟨project, raw, store.withRows (store.decisions ++ [row]), store', row, m, by
    simp [hproject],
    by simp [hraw], by simp [hreplace], ?_, ?_, ?_, hfile.loaded _,
    fun signed => stands_verifyProductDecision hC hprofile hrow signed,
    stands_evaluateReuse hC hprofile hrow hfile⟩
  · unfold checkStore
    rw [hstore']
  · have hself : hasDecisionId d.decisionId row = true := by
      obtain ⟨s, hs⟩ := Option.isSome_iff_exists.mp hid
      unfold hasDecisionId
      rw [hrow.id, eq_of_text? hs]
      exact (pyEq_str_right _ _).mpr rfl
    have hothers : store.decisions.filter (hasDecisionId d.decisionId) = [] := by
      rw [List.filter_eq_nil_iff]
      intro x hx
      rw [hnew x hx]
      simp
    rw [hdecisions, List.filter_append, hothers, List.filter_cons, if_pos hself]
    rfl
  · unfold isPlainDecision
    rw [hrow.mode]
    exact (pyEq_str_right _ _).mpr rfl

/-- The owner's choice of the first option. -/
def plainSampleDecision : PlainDecision :=
  ⟨.str (lit "DEC-1"), .str (lit "monthly"), .str (lit "billing"),
    .str (lit "owner_explicit_choice:A"),
    .str (lit "scope_or_assumptions_change"), lit "request.json"⟩

/-- The repository before it was recorded. -/
def unrecordedHost : (o : HostOp) → hostSig.Resp o
  | .readJson .decisions => .ok none
  | o => plainSampleHost o

end SddGov.Autonomy
