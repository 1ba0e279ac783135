import SddGov.MergeGate.Gate
import SddGov.Python.Strip

/-!
# The meaning of a rollback record

With both flags for old versions off, `_rollback_contract` accepts a text just
when its lines, those that are blank or comments aside, are the lines of a
`Contract` in some order (`rollback_contract_exact`). A record is thus a set of
lines, and no line of it may be padded, indented, unknown or given twice.
-/

namespace SddGov.MergeGate

open SddGov.Python SddGov.Git

/-! ## The vocabulary -/

/-- What may stand for the target of a rollback. -/
structure AllowedTarget (target : PyStr) : Prop where
  trimmed : strip target = target
  nonempty : target ≠ []
  short : target.length ≤ 240
  plain : ∀ token ∈ ["todo", "unavailable", "<", ">"],
    containsText (lit token) (lower target) = false

/-- A rollback that reinstalls the agent. -/
structure Reinstall where
  target : PyStr
  ref : PyStr
  agent : PyStr
  profile : PyStr
  verifyModule : PyStr
  targetAllowed : AllowedTarget target
  refAllowed : isHexOf 40 ref = true
  agentAllowed : agent ∈ ["codex", "hermes"].map lit
  profileAllowed : profile ∈ ["solo-fast", "team-standard", "regulated"].map lit
  moduleAllowed : verifyModule ∈ ["pytest", "unittest"].map lit

/-- A rollback in a repository that does not install itself. -/
structure Deactivation where
  target : PyStr
  ref : PyStr
  targetAllowed : AllowedTarget target
  refAllowed : isHexOf 40 ref = true

/-- The closed vocabulary of the third and the fourth version. -/
inductive Contract
  | third (c : Reinstall)
  | fourth (c : Deactivation)

/-- The fields of a record, each with its value. -/
def Contract.fields : Contract → Fields
  | .third c =>
    [(lit "rollback_version", lit "3.0"), (lit "target", c.target),
      (lit "rollback_action", lit "git_revert"),
      (lit "rollback_ref", c.ref), (lit "verify_action", lit "doctor_and_python_module"),
      (lit "verify_module", c.verifyModule),
        (lit "reconcile_action", lit "setup_agent_from_reverted_source"),
      (lit "reconcile_agent", c.agent), (lit "reconcile_profile", c.profile)]
  | .fourth c =>
    [(lit "rollback_version", lit "4.0"), (lit "target", c.target),
      (lit "rollback_action", lit "git_revert"),
      (lit "rollback_ref", c.ref), (lit "reconcile_action",
        lit "assert_self_governance_deactivated"),
      (lit "verify_action", lit "self_governance_deactivated")]

/-- What is returned for a record. -/
def Contract.result : Contract → Fields
  | .third c => (Contract.third c).fields
  | .fourth c => (lit "version", lit "4.0") :: (Contract.fourth c).fields.drop 1

/-- `key: value`. -/
def fieldLine (f : PyStr × PyStr) : PyStr := f.1 ++ lit ": " ++ f.2

def Contract.lines (c : Contract) : List PyStr := c.fields.map fieldLine

/-- The line is blank or a comment. -/
def isSkipped (raw : PyStr) : Bool := (strip raw).isEmpty || (strip raw).head? == some (cp 0x23)

/-- The lines that count. -/
def recordLines (text : PyStr) : List PyStr := (splitLines text).filter fun raw => !isSkipped raw

/-! ## One line -/

/-- The conditions on a field and its line. -/
structure WellSpelled (f : PyStr × PyStr) : Prop where
  line : strip (fieldLine f) = fieldLine f
  noColon : cp 0x3A ∉ f.1
  nonempty : f.1 ≠ []
  key : strip f.1 = f.1
  lower : lower f.1 = f.1
  value : strip f.2 = f.2

/-- A line is taken just when it is the well-spelled line of a field that is new. -/
theorem rollbackField_eq_some {raw : PyStr} {fields r : Fields} :
    rollbackField raw fields = some r
      ↔ ∃ f, raw = fieldLine f ∧ WellSpelled f ∧ f.1 ∉ fields.map Prod.fst ∧ r = fields ++ [f] := by
  constructor
  · intro h
    unfold rollbackField at h
    dsimp only at h
    split at h
    · exact absurd h (by simp)
    · next hcolon =>
      split at h
      · exact absurd h (by simp)
      · next hspelled =>
        simp only [not_or, not_not] at hspelled
        obtain ⟨hline, hkey, hstrip, hlower, hnew, hhead, -, hvalue⟩ := hspelled
        have hcolon : cp 0x3A ∈ raw := by simpa using hcolon
        -- the line is cut at its first colon; the space behind it is the character the code drops
        have hraw : raw = raw.takeWhile (· != cp 0x3A) ++ raw.dropWhile (· != cp 0x3A) :=
          List.takeWhile_append_dropWhile.symm
        obtain ⟨c, value, hdrop⟩ : ∃ c value, raw.dropWhile (· != cp 0x3A) = c :: value := by
          refine List.exists_cons_of_ne_nil fun hnil => ?_
          rw [List.dropWhile_eq_nil_iff] at hnil
          exact absurd (hnil _ hcolon) (by simp)
        have hc : c = cp 0x3A := by
          have hfirst := List.head?_dropWhile_not (· != cp 0x3A) raw
          rw [hdrop] at hfirst
          simpa using hfirst
        subst hc
        simp only [hdrop, List.drop_succ_cons, List.drop_zero] at hhead hvalue h
        cases value with
        | nil => exact absurd hhead (by simp)
        | cons d value =>
          obtain rfl := Option.some.inj hhead
          have hfield : raw = fieldLine (raw.takeWhile (· != cp 0x3A), value) := by
            unfold fieldLine
            rw [List.append_assoc]
            exact hraw.trans (by rw [hdrop]; rfl)
          refine ⟨(raw.takeWhile (· != cp 0x3A), value), hfield,
            ⟨?_, ?_, ?_, hstrip.symm, hlower.symm, hvalue.symm⟩,
            by simpa using hnew, (Option.some.inj h).symm⟩
          · rw [← hfield]
            exact hline.symm
          · intro hmem
            exact absurd (List.mem_takeWhile_imp hmem) (by simp)
          · exact fun hnil => hkey (List.isEmpty_iff.mpr hnil)
  · rintro ⟨⟨key, value⟩, rfl, hspelled, hnew, rfl⟩
    have hkey : ∀ c ∈ key, (c != cp 0x3A) = true := by
      intro c hc
      rw [bne_iff_ne]
      rintro rfl
      exact hspelled.noColon hc
    have hline : fieldLine (key, value) = key ++ cp 0x3A :: cp 0x20 :: value := by
      unfold fieldLine
      rw [List.append_assoc]
      rfl
    have htake : (fieldLine (key, value)).takeWhile (· != cp 0x3A) = key := by
      rw [hline, List.takeWhile_append_of_pos hkey, List.takeWhile_cons_of_neg (by simp),
        List.append_nil]
    have hdrop : (fieldLine (key, value)).dropWhile (· != cp 0x3A) = cp 0x3A :: cp 0x20
      :: value := by
      rw [hline, List.dropWhile_append_of_pos hkey, List.dropWhile_cons_of_neg (by simp)]
    have hcolon : (fieldLine (key, value)).contains (cp 0x3A) = true := by simp [hline]
    -- a trimmed value does not start with a space, so the line has one space after the colon and
    -- not two
    have htwo : [cp 0x20, cp 0x20].isPrefixOf (cp 0x20 :: value) = false := by
      by_cases hnil : value = []
      · rw [hnil]
        rfl
      · obtain ⟨c, rest, rfl, hspace⟩ :=
          (trimmed_of_strip (show strip value = value from hspelled.value) hnil).first
        have hc : cp 0x20 ≠ c := by
          rintro rfl
          exact absurd hspace (by decide)
        simp [List.isPrefixOf, hc]
    unfold rollbackField
    dsimp only
    rw [if_neg (by rw [hcolon]; simp), htake, hdrop, List.drop_succ_cons, List.drop_zero, if_neg]
    · rfl
    · have h := hspelled
      simp only [not_or, not_not]
      refine ⟨h.line.symm, by
        simp [h.nonempty], h.key.symm, h.lower.symm, by simpa using hnew, rfl, ?_,
        h.value.symm⟩
      rw [htwo]
      simp

/-- A well-spelled line is the line of one field only. -/
theorem fieldLine_inj {f g : PyStr × PyStr} (hf : WellSpelled f) (hg : WellSpelled g)
    (h : fieldLine f = fieldLine g) : f = g := by
  have hfirst : rollbackField (fieldLine f) [] = some [f] :=
    rollbackField_eq_some.mpr ⟨f, rfl, hf, by simp, rfl⟩
  have hsecond : rollbackField (fieldLine f) [] = some [g] :=
    rollbackField_eq_some.mpr ⟨g, h, hg, by simp, rfl⟩
  exact (List.cons.inj (Option.some.inj (hfirst.symm.trans hsecond))).1

/-! ## All lines -/

theorem rollbackFields_cons (raw : PyStr) (rest : List PyStr) (fields : Fields) :
    rollbackFields (raw :: rest) fields
      = if isSkipped raw = true then rollbackFields rest fields
        else (rollbackField raw fields).bind (rollbackFields rest) := by
  rw [rollbackFields]
  rfl

/-- The lines that count are those of new fields, each well spelled and no two with one key. -/
theorem rollbackFields_eq_some {lines : List PyStr} {fields r : Fields} :
    rollbackFields lines fields = some r
      ↔ ∃ new, (lines.filter fun raw => !isSkipped raw) = new.map fieldLine
        ∧ (∀ f ∈ new, WellSpelled f)
        ∧ (new.map Prod.fst).Nodup ∧ (∀ f ∈ new, f.1 ∉ fields.map Prod.fst) ∧ r = fields
          ++ new := by
  induction lines generalizing fields with
  | nil =>
    rw [rollbackFields]
    constructor
    · intro h
      exact ⟨[], rfl, by
        simp, by simp, by simp, by rw [List.append_nil]; exact (Option.some.inj h).symm⟩
    · rintro ⟨new, hnew, -, -, -, rfl⟩
      obtain rfl := List.map_eq_nil_iff.mp hnew.symm
      rw [List.append_nil]
  | cons raw rest ih =>
    rw [rollbackFields_cons]
    -- `continue` leaves the fields as they are; any other line adds one field or ends the loop
    by_cases hskip : isSkipped raw = true
    · rw [if_pos hskip, List.filter_cons_of_neg (by simp [hskip])]
      exact ih
    · rw [if_neg hskip, List.filter_cons_of_pos (by simpa using hskip)]
      rw [Option.bind_eq_some_iff]
      constructor
      · rintro ⟨fields', hfield, hrest⟩
        obtain ⟨f, rfl, hspelled, hnew, rfl⟩ := rollbackField_eq_some.mp hfield
        obtain ⟨new, hlines, hall, hnodup, hapart, rfl⟩ := ih.mp hrest
        have hf : f.1 ∉ new.map Prod.fst := by
          intro hmem
          obtain ⟨g, hg, heq⟩ := List.mem_map.mp hmem
          exact hapart g hg (by simp [heq])
        refine ⟨f :: new, by rw [hlines, List.map_cons], List.forall_mem_cons.mpr ⟨hspelled,
          hall⟩, ?_, ?_, by simp⟩
        · rw [List.map_cons, List.nodup_cons]
          exact ⟨hf, hnodup⟩
        · refine List.forall_mem_cons.mpr ⟨hnew, fun g hg hmem => hapart g hg ?_⟩
          rw [List.map_append]
          exact List.mem_append_left _ hmem
      · rintro ⟨new, hlines, hall, hnodup, hapart, rfl⟩
        cases new with
        | nil => exact absurd hlines (by simp)
        | cons f new =>
          obtain ⟨rfl, hrest⟩ := List.cons.inj hlines
          rw [List.map_cons, List.nodup_cons] at hnodup
          obtain ⟨hspelled, hall⟩ := List.forall_mem_cons.mp hall
          obtain ⟨hnew, hapart⟩ := List.forall_mem_cons.mp hapart
          refine ⟨fields ++ [f], rollbackField_eq_some.mpr ⟨f, rfl, hspelled, hnew, rfl⟩,
            ih.mpr ⟨new, hrest, hall, hnodup.2, fun g hg hmem => ?_, by simp⟩⟩
          rw [List.map_append, List.mem_append] at hmem
          rcases hmem with hmem | hmem
          · exact hapart g hg hmem
          · have heq : g.1 = f.1 := by simpa using hmem
            exact hnodup.1 (heq ▸ List.mem_map_of_mem hg)

/-! ## Fields in any order -/

/-- A field that is there is found. -/
theorem fieldOf_of_mem {fields : Fields} (hnodup : (fields.map Prod.fst).Nodup) {key : String}
    {value : PyStr}
    (h : (lit key, value) ∈ fields) : fieldOf key fields = some value := by
  unfold fieldOf
  induction fields with
  | nil => exact absurd h (by simp)
  | cons f fields ih =>
    rw [List.map_cons, List.nodup_cons] at hnodup
    rw [List.find?_cons]
    rcases List.mem_cons.mp h with rfl | h
    · simp
    · have hne : (f.1 == lit key) = false := by
        rw [beq_eq_false_iff_ne]
        intro heq
        exact hnodup.1 (List.mem_map.mpr ⟨_, h, heq.symm⟩)
      rw [hne]
      exact ih hnodup.2 h

theorem mem_of_fieldOf {fields : Fields} {key : String} {value : PyStr}
    (h : fieldOf key fields = some value) :
    (lit key, value) ∈ fields := by
  unfold fieldOf at h
  obtain ⟨f, hf, rfl⟩ := Option.map_eq_some_iff.mp h
  have hkey : f.1 = lit key := by simpa using List.find?_some hf
  rw [← hkey]
  exact List.mem_of_find?_eq_some hf

/-- Where no two fields have one key, their order does not matter. -/
theorem fieldOf_perm {fields fields' : Fields} (hnodup : (fields.map Prod.fst).Nodup)
    (hperm : fields.Perm fields') (key : String) : fieldOf key fields = fieldOf key fields' := by
  have hnodup' : (fields'.map Prod.fst).Nodup := (hperm.map Prod.fst).nodup_iff.mp hnodup
  cases h : fieldOf key fields with
  | some value => exact (fieldOf_of_mem hnodup' (hperm.subset (mem_of_fieldOf h))).symm
  | none =>
    cases h' : fieldOf key fields' with
    | none => rfl
    -- a key found on one side is found on the other, as both have the same fields
    | some value =>
      have hmem := hperm.symm.subset (mem_of_fieldOf h')
      exact absurd (h.symm.trans (fieldOf_of_mem hnodup hmem)) (by simp)

/-- The names of the fields are exactly these. -/
theorem hasFields_iff {names : List String} {fields : Fields} :
    hasFields names fields = true ↔ ∀ key, key ∈ fields.map Prod.fst ↔ key ∈ names.map lit := by
  unfold hasFields
  simp only [Bool.and_eq_true, List.all_eq_true, List.contains_iff_mem]
  constructor
  · rintro ⟨hknown, hall⟩ key
    constructor
    · intro hkey
      obtain ⟨f, hf, rfl⟩ := List.mem_map.mp hkey
      exact hknown f hf
    · intro hkey
      obtain ⟨name, hname, rfl⟩ := List.mem_map.mp hkey
      exact hall name hname
  · intro h
    exact ⟨fun f hf => (h f.1).mp (List.mem_map_of_mem hf), fun name hname =>
      (h _).mpr (List.mem_map_of_mem hname)⟩

/-- Fields with just these keys are these keys with their values. -/
theorem perm_of_hasFields {names : List String} {fields : Fields}
    (hnodup : (fields.map Prod.fst).Nodup)
    (hnames : names.Nodup) (h : hasFields names fields = true) :
    fields.Perm (names.map fun name => (lit name, (fieldOf name fields).getD [])) := by
  have hlit : (names.map fun name => (lit name, (fieldOf name fields).getD [])).Nodup := by
    refine (List.nodup_map_iff_inj_on hnames).mpr ?_
    intro a _ b _ heq
    exact lit_inj.mp (Prod.mk.inj heq).1
  -- neither list has a field twice, so it is enough that they have the same fields
  refine (List.perm_ext_iff_of_nodup (List.Nodup.of_map _ hnodup) hlit).mpr fun f => ?_
  rw [hasFields_iff] at h
  constructor
  · intro hf
    obtain ⟨name, hname, heq⟩ := List.mem_map.mp ((h f.1).mp (List.mem_map_of_mem hf))
    have hvalue : fieldOf name fields = some f.2 := fieldOf_of_mem hnodup (by rw [heq]; exact hf)
    exact List.mem_map.mpr ⟨name, hname, by rw [hvalue, Option.getD_some, heq]⟩
  · intro hf
    obtain ⟨name, hname, rfl⟩ := List.mem_map.mp hf
    obtain ⟨g, hg, heq⟩ := List.mem_map.mp ((h (lit name)).mpr (List.mem_map_of_mem hname))
    have hmem : (lit name, g.2) ∈ fields := by rw [← heq]; exact hg
    rw [fieldOf_of_mem hnodup hmem]
    exact hmem

/-- Lines that are those of some fields in another order are those of the fields in another
order. -/
theorem exists_fields_of_perm {lines : List PyStr} {fields : Fields}
    (h : lines.Perm (fields.map fieldLine)) :
    ∃ fields' : Fields, lines = fields'.map fieldLine ∧ fields'.Perm fields := by
  have hcomp := congrFun (congrFun (List.eq_map_comp_perm fieldLine) lines) fields
  exact hcomp.mpr h

theorem fieldIn_iff {key : String} {values : List String} {fields : Fields} :
    fieldIn key values fields = true ↔ ∃ v ∈ values, fieldOf key fields = some (lit v) := by
  unfold fieldIn
  cases h : fieldOf key fields with
  | none => simp
  | some value =>
    simp only [List.contains_iff_mem, List.mem_map, Option.some.injEq]
    exact ⟨fun ⟨v, hv, heq⟩ => ⟨v, hv, heq.symm⟩, fun ⟨v, hv, heq⟩ => ⟨v, hv, heq.symm⟩⟩

theorem fieldIn_one {key value : String} {fields : Fields} :
    fieldIn key [value] fields = true ↔ fieldOf key fields = some (lit value) := by
  rw [fieldIn_iff]
  simp

/-! ## A record that is accepted -/

section Accepted

variable {fields r : Fields}

/-- A target is one of those allowed. -/
theorem validTarget_iff (hspelled : ∀ f ∈ fields, WellSpelled f) :
    validTarget fields = true ↔ ∃ target, fieldOf "target" fields = some target
    ∧ AllowedTarget target := by
  unfold validTarget
  dsimp only
  cases h : fieldOf "target" fields with
  | none => simp
  | some target =>
    have htrim : strip target = target := (hspelled _ (mem_of_fieldOf h)).value
    rw [Option.getD_some]
    simp only [Bool.and_eq_true, Bool.not_eq_true', List.isEmpty_eq_false_iff, decide_eq_true_eq,
      List.any_eq_false, Bool.not_eq_true, Option.some.injEq, exists_eq_left']
    constructor
    · rintro ⟨⟨hne, hshort⟩, hplain⟩
      exact ⟨htrim, hne, hshort, hplain⟩
    · intro hallowed
      exact ⟨⟨hallowed.nonempty, hallowed.short⟩, hallowed.plain⟩

theorem keep_of_hasFields {names : List String} (h : hasFields names fields = true) :
    keep names fields = fields := by
  unfold hasFields at h
  unfold keep
  rw [Bool.and_eq_true, List.all_eq_true] at h
  exact List.filter_eq_self.mpr h.1

theorem fieldOf_getD {key : String} {value : PyStr} (h : fieldOf key fields = some value) :
    (fieldOf key fields).getD [] = value := by
  rw [h]
  rfl

/-- The fields of a third version are those of a `Reinstall`. -/
theorem rollbackV3_some (hnodup : (fields.map Prod.fst).Nodup) {target : PyStr}
    (htarget : fieldOf "target" fields = some target) (hallowed : AllowedTarget target)
    (hversion : fieldOf "rollback_version" fields = some (lit "3.0"))
    (h : rollbackV3 fields = some r) :
    ∃ c : Reinstall, fields.Perm (Contract.third c).fields ∧ r = fields := by
  unfold rollbackV3 at h
  split at h
  · next hfields =>
    simp only [Bool.and_eq_true] at hfields
    obtain ⟨⟨⟨⟨⟨⟨hnames, hreverts⟩, hreconcile⟩, hagent⟩, hprofile⟩, hverify⟩, hmodule⟩ := hfields
    unfold revertsCommit at hreverts
    rw [Bool.and_eq_true] at hreverts
    obtain ⟨agent, hagentIn, hagent⟩ := fieldIn_iff.mp hagent
    obtain ⟨profile, hprofileIn, hprofile⟩ := fieldIn_iff.mp hprofile
    obtain ⟨verifyModule, hmoduleIn, hmodule⟩ := fieldIn_iff.mp hmodule
    refine ⟨⟨target, (fieldOf "rollback_ref" fields).getD [], lit agent, lit profile,
      lit verifyModule,
      hallowed,
      hreverts.2, List.mem_map_of_mem hagentIn, List.mem_map_of_mem hprofileIn,
        List.mem_map_of_mem hmoduleIn⟩, ?_,
      (Option.some.inj h).symm.trans (keep_of_hasFields hnames)⟩
    have hperm := perm_of_hasFields hnodup (by decide) hnames
    simp only [requiredV3, requiredV2, List.cons_append, List.nil_append, List.map_cons,
      List.map_nil,
      fieldOf_getD hversion, fieldOf_getD htarget, fieldOf_getD (fieldIn_one.mp hreverts.1),
      fieldOf_getD (fieldIn_one.mp hverify), fieldOf_getD hmodule,
        fieldOf_getD (fieldIn_one.mp hreconcile),
      fieldOf_getD hagent, fieldOf_getD hprofile] at hperm
    exact hperm
  · exact absurd h (by simp)

/-- The fields of a fourth version are those of a `Deactivation`. -/
theorem rollbackV4_some (hnodup : (fields.map Prod.fst).Nodup) {target : PyStr}
    (htarget : fieldOf "target" fields = some target) (hallowed : AllowedTarget target)
    (hversion : fieldOf "rollback_version" fields = some (lit "4.0"))
    (h : rollbackV4 fields = some r) :
    ∃ c : Deactivation, fields.Perm (Contract.fourth c).fields
      ∧ r = (lit "version", lit "4.0") :: keep (requiredV4.drop 1) fields := by
  unfold rollbackV4 at h
  split at h
  · next hfields =>
    simp only [Bool.and_eq_true] at hfields
    obtain ⟨⟨⟨hnames, hreverts⟩, hreconcile⟩, hverify⟩ := hfields
    unfold revertsCommit at hreverts
    rw [Bool.and_eq_true] at hreverts
    refine ⟨⟨target, (fieldOf "rollback_ref" fields).getD [], hallowed, hreverts.2⟩, ?_,
      (Option.some.inj h).symm⟩
    have hperm := perm_of_hasFields hnodup (by decide) hnames
    simp only [requiredV4, List.map_cons, List.map_nil, fieldOf_getD hversion, fieldOf_getD htarget,
      fieldOf_getD (fieldIn_one.mp hreverts.1), fieldOf_getD (fieldIn_one.mp hreconcile),
      fieldOf_getD (fieldIn_one.mp hverify)] at hperm
    exact hperm
  · exact absurd h (by simp)

end Accepted

/-! ## The lines of a record -/

/-- Stripping leaves hexadecimal digits. -/
theorem hex_strip {s : PyStr} {n : Nat} (h : isHexOf n s = true) : strip s = s := by
  unfold isHexOf at h
  rw [Bool.and_eq_true, List.all_eq_true] at h
  have hsolid : ∀ c ∈ s, isSpace c = false := by
    intro c hc
    -- no hexadecimal digit is whitespace
    have hrange := h.2 c hc
    simp only [Bool.or_eq_true, Bool.and_eq_true, decide_eq_true_eq] at hrange
    unfold isSpace
    simp only [Bool.or_eq_false_iff, Bool.and_eq_false_iff, decide_eq_false_iff_not,
      beq_eq_false_iff_ne, ne_eq]
    omega
  by_cases hnil : s = []
  · rw [hnil]
    rfl
  · exact strip_trimmed (Word.trimmed ⟨hnil, hsolid⟩)

/-- A key of the vocabulary. -/
def knownKeys : List PyStr :=
  (["rollback_version", "target", "rollback_action", "rollback_ref", "verify_action",
    "verify_module",
    "reconcile_action", "reconcile_agent", "reconcile_profile"]).map lit

/-- A known key is spelled as the reader leaves it. -/
theorem knownKey_spelled {key : PyStr} (h : key ∈ knownKeys) :
    cp 0x3A ∉ key ∧ key ≠ [] ∧ strip key = key ∧ lower key = key
      ∧ ∃ c rest, key = c :: rest ∧ isSpace c = false := by
  have hall : knownKeys.all (fun key => !key.contains (cp 0x3A) && !key.isEmpty && strip key == key
      && lower key == key && key.head?.any fun c => !isSpace c) = true := by decide
  have hkey := List.all_eq_true.mp hall key h
  simp only [Bool.and_eq_true, Bool.not_eq_true', List.contains_eq_mem, decide_eq_false_iff_not,
    List.isEmpty_eq_false_iff, beq_iff_eq] at hkey
  obtain ⟨⟨⟨⟨hcolon, hne⟩, hstrip⟩, hlower⟩, hfirst⟩ := hkey
  refine ⟨hcolon, hne, hstrip, hlower, ?_⟩
  cases key with
  | nil => exact absurd rfl hne
  | cons c rest => exact ⟨c, rest, rfl, by simpa using hfirst⟩

/-- A known key with a stripped value is well spelled. -/
theorem wellSpelled_of {f : PyStr × PyStr} (hkey : f.1 ∈ knownKeys) (hvalue : strip f.2 = f.2)
    (hne : f.2 ≠ []) : WellSpelled f := by
  obtain ⟨hcolon, hnonempty, hstrip, hlower, c, rest, hfirst, hc⟩ := knownKey_spelled hkey
  -- the line starts as its key does and ends as its value does
  obtain ⟨init, d, hlast, hd⟩ := (trimmed_of_strip hvalue hne).last
  refine ⟨strip_trimmed ⟨⟨c, rest ++ lit ": " ++ f.2, ?_, hc⟩, f.1 ++ lit ": " ++ init, d, ?_, hd⟩,
    hcolon,
    hnonempty, hstrip, hlower, hvalue⟩
  · unfold fieldLine
    rw [hfirst, List.cons_append, List.cons_append]
  · unfold fieldLine
    rw [hlast]
    simp only [List.append_assoc]

/-- Each field of a record is well spelled, with a known key and a value. -/
theorem Contract.mem_fields (c : Contract) {f : PyStr × PyStr} (h : f ∈ c.fields) :
    f.1 ∈ knownKeys ∧ strip f.2 = f.2 ∧ f.2 ≠ [] := by
  have hconstant : ∀ value ∈ ["3.0", "4.0", "git_revert", "doctor_and_python_module",
      "setup_agent_from_reverted_source", "assert_self_governance_deactivated",
        "self_governance_deactivated",
      "codex", "hermes", "solo-fast", "team-standard", "regulated", "pytest", "unittest"].map lit,
      strip value = value ∧ value ≠ [] := by decide
  have hkeys : ∀ key ∈ ["rollback_version", "target", "rollback_action", "rollback_ref",
    "verify_action",
      "verify_module", "reconcile_action", "reconcile_agent", "reconcile_profile"],
        lit key ∈ knownKeys :=
    fun key hkey => List.mem_map_of_mem hkey
  have hlisted {names : List String} {value : PyStr} (hin : value ∈ names.map lit)
      (hnames : ∀ name ∈ names, strip (lit name) = lit name ∧ lit name ≠ []) :
        strip value = value ∧ value ≠ [] := by
    obtain ⟨name, hname, rfl⟩ := List.mem_map.mp hin
    exact hnames name hname
  have href {ref : PyStr} (hhex : isHexOf 40 ref = true) : strip ref = ref ∧ ref ≠ [] := by
    refine ⟨hex_strip hhex, ?_⟩
    rintro rfl
    exact absurd hhex (by decide)
  cases c with
  | third c =>
    simp only [Contract.fields, List.mem_cons, List.not_mem_nil, or_false] at h
    rcases h with rfl | rfl | rfl | rfl | rfl | rfl | rfl | rfl | rfl
    · exact ⟨hkeys _ (by simp), hconstant _ (by simp)⟩
    · exact ⟨hkeys _ (by simp), c.targetAllowed.trimmed, c.targetAllowed.nonempty⟩
    · exact ⟨hkeys _ (by simp), hconstant _ (by simp)⟩
    · exact ⟨hkeys _ (by simp), href c.refAllowed⟩
    · exact ⟨hkeys _ (by simp), hconstant _ (by simp)⟩
    · exact ⟨hkeys _ (by simp), hlisted c.moduleAllowed (by decide)⟩
    · exact ⟨hkeys _ (by simp), hconstant _ (by simp)⟩
    · exact ⟨hkeys _ (by simp), hlisted c.agentAllowed (by decide)⟩
    · exact ⟨hkeys _ (by simp), hlisted c.profileAllowed (by decide)⟩
  | fourth c =>
    simp only [Contract.fields, List.mem_cons, List.not_mem_nil, or_false] at h
    rcases h with rfl | rfl | rfl | rfl | rfl | rfl
    · exact ⟨hkeys _ (by simp), hconstant _ (by simp)⟩
    · exact ⟨hkeys _ (by simp), c.targetAllowed.trimmed, c.targetAllowed.nonempty⟩
    · exact ⟨hkeys _ (by simp), hconstant _ (by simp)⟩
    · exact ⟨hkeys _ (by simp), href c.refAllowed⟩
    · exact ⟨hkeys _ (by simp), hconstant _ (by simp)⟩
    · exact ⟨hkeys _ (by simp), hconstant _ (by simp)⟩

theorem Contract.nodup (c : Contract) : (c.fields.map Prod.fst).Nodup := by
  cases c <;> simp [Contract.fields]

theorem Contract.spelled (c : Contract) {f : PyStr × PyStr} (h : f ∈ c.fields) : WellSpelled f := by
  obtain ⟨hkey, hvalue, hne⟩ := c.mem_fields h
  exact wellSpelled_of hkey hvalue hne

/-- Every field of the record is found under its key. -/
theorem Contract.fieldOf_eq (c : Contract) {fields : Fields} (hperm : fields.Perm c.fields)
    {key : String}
    {value : PyStr} (h : (lit key, value) ∈ c.fields) : fieldOf key fields = some value := by
  have hnodup := (hperm.map Prod.fst).nodup_iff.mpr c.nodup
  rw [fieldOf_perm hnodup hperm]
  exact fieldOf_of_mem c.nodup h

theorem Contract.hasFields (c : Contract) {fields : Fields} (hperm : fields.Perm c.fields)
    (names : List String)
    (h : c.fields.map Prod.fst = names.map lit) : MergeGate.hasFields names fields = true := by
  refine hasFields_iff.mpr fun key => ?_
  rw [← h]
  exact (hperm.map Prod.fst).mem_iff

theorem Deactivation.result_perm (c : Deactivation) {fields : Fields}
    (hperm : fields.Perm (Contract.fourth c).fields) :
    ((lit "version", lit "4.0") :: keep (requiredV4.drop 1) fields).Perm
    (Contract.fourth c).result := by
  have hkeep : keep (requiredV4.drop 1) (Contract.fourth c).fields
    = (Contract.fourth c).fields.drop 1 := by
    simp [keep, requiredV4, Contract.fields]
  have hrest : (keep (requiredV4.drop 1) fields).Perm ((Contract.fourth c).fields.drop 1) := by
    rw [← hkeep]
    exact hperm.filter _
  exact hrest.cons _

/-- Both versions are accepted, whatever the order of the fields. -/
theorem Contract.accepted (c : Contract) {fields : Fields} (hperm : fields.Perm c.fields) :
    validTarget fields = true ∧ fieldIn "rollback_version" ["1.0"] fields = false
      ∧ fieldIn "rollback_version" ["2.0"] fields = false
      ∧ ∃ r, (if fieldIn "rollback_version" ["3.0"] fields then rollbackV3 fields
        else if fieldIn "rollback_version" ["4.0"] fields then rollbackV4 fields else none) = some r
        ∧ r.Perm c.result := by
  have hspelled : ∀ f ∈ fields, WellSpelled f := fun f hf => c.spelled (hperm.subset hf)
  have hversion (value : String) {other : String}
    (h : (lit "rollback_version", lit value) ∈ c.fields) (hne : value ≠ other) :
      fieldIn "rollback_version" [other] fields = false := by
    rw [Bool.eq_false_iff]
    intro hother
    have heq := (c.fieldOf_eq hperm h).symm.trans (fieldIn_one.mp hother)
    exact hne (lit_inj.mp (Option.some.inj heq))
  have hfield {key value : String} (h : (lit key, lit value) ∈ c.fields) :
    fieldIn key [value] fields = true :=
    fieldIn_one.mpr (c.fieldOf_eq hperm h)
  have hlisted {key : String} {names : List String} {value : PyStr}
    (h : (lit key, value) ∈ c.fields)
      (hin : value ∈ names.map lit) : fieldIn key names fields = true := by
    obtain ⟨name, hname, rfl⟩ := List.mem_map.mp hin
    exact fieldIn_iff.mpr ⟨name, hname, c.fieldOf_eq hperm h⟩
  -- the tests of `_rollback_contract` on one field, each from the field being in the record
  have href (ref : PyStr) (h : (lit "rollback_ref", ref) ∈ c.fields) (hhex : isHexOf 40 ref = true)
      (haction : (lit "rollback_action", lit "git_revert") ∈ c.fields) :
        revertsCommit fields = true := by
    unfold revertsCommit
    rw [hfield haction, c.fieldOf_eq hperm h, Option.getD_some, hhex]
    rfl
  cases c with
  | third c =>
    have hnames := Contract.hasFields (.third c) hperm requiredV3 rfl
    refine ⟨(validTarget_iff hspelled).mpr
      ⟨c.target, Contract.fieldOf_eq _ hperm (by simp [Contract.fields]),
      c.targetAllowed⟩, hversion "3.0" (by simp [Contract.fields]) (by decide),
      hversion "3.0" (by simp [Contract.fields]) (by decide), fields, ?_, hperm⟩
    rw [if_pos (hfield (by simp [Contract.fields]))]
    unfold rollbackV3
    rw [hnames, href c.ref (by simp [Contract.fields]) c.refAllowed (by simp [Contract.fields]),
      hfield (by simp [Contract.fields]), hlisted (by simp [Contract.fields]) c.agentAllowed,
      hlisted (by simp [Contract.fields]) c.profileAllowed, hfield (by simp [Contract.fields]),
      hlisted (by simp [Contract.fields]) c.moduleAllowed, keep_of_hasFields hnames]
    rfl
  | fourth c =>
    have hnames := Contract.hasFields (.fourth c) hperm requiredV4 rfl
    refine ⟨(validTarget_iff hspelled).mpr
      ⟨c.target, Contract.fieldOf_eq _ hperm (by simp [Contract.fields]),
      c.targetAllowed⟩, hversion "4.0" (by simp [Contract.fields]) (by decide),
      hversion "4.0" (by simp [Contract.fields]) (by decide),
      (lit "version", lit "4.0") :: keep (requiredV4.drop 1) fields, ?_, ?_⟩
    · rw [hversion "4.0" (by simp [Contract.fields]) (by decide),
        hfield (by simp [Contract.fields])]
      unfold rollbackV4
      rw [hnames, href c.ref (by simp [Contract.fields]) c.refAllowed (by simp [Contract.fields]),
        hfield (by simp [Contract.fields]), hfield (by simp [Contract.fields])]
      rfl
    · exact c.result_perm hperm

/-! ## The exact meaning -/

/-- An accepted text has the lines of one of the contracts, in some order, and the result has their
values. -/
theorem rollbackContract_fields {text : PyStr} {r : Fields}
    (h : rollbackContract text false false = some r) :
    ∃ (c : Contract) (fields : Fields), recordLines text = fields.map fieldLine
    ∧ fields.Perm c.fields
      ∧ r.Perm c.result := by
  unfold rollbackContract at h
  split at h
  · exact absurd h (by simp)
  · next fields hfields =>
    -- the target is tested before the version, and with both flags off the first two versions are
    -- refused
    obtain ⟨new, hlines, hspelled, hnodup, -, rfl⟩ := rollbackFields_eq_some.mp hfields
    split at h
    · exact absurd h (by simp)
    · next htarget =>
      obtain ⟨target, htarget, hallowed⟩ := (validTarget_iff hspelled).mp (by simpa using htarget)
      split at h
      · exact absurd h (by simp)
      · split at h
        · exact absurd h (by simp)
        · split at h
          · next hversion =>
            obtain ⟨c, hperm, rfl⟩ := rollbackV3_some hnodup htarget hallowed
              (fieldIn_one.mp hversion) h
            exact ⟨.third c, r, hlines, hperm, hperm⟩
          · split at h
            · next hversion =>
              obtain ⟨c, hperm, rfl⟩ := rollbackV4_some hnodup htarget hallowed
                (fieldIn_one.mp hversion) h
              exact ⟨.fourth c, _, hlines, hperm, c.result_perm hperm⟩
            · exact absurd h (by simp)

/-- The lines of a contract are accepted in every order. -/
theorem rollbackContract_of_lines {text : PyStr} {c : Contract}
    (h : (recordLines text).Perm c.lines) :
    ∃ r, rollbackContract text false false = some r ∧ r.Perm c.result := by
  obtain ⟨fields, hlines, hperm⟩ := exists_fields_of_perm h
  have hnodup := (hperm.map Prod.fst).nodup_iff.mpr c.nodup
  have hfields : rollbackFields (splitLines text) [] = some fields :=
    rollbackFields_eq_some.mpr ⟨fields, hlines, fun f hf => c.spelled (hperm.subset hf),
      hnodup, by simp, rfl⟩
  obtain ⟨htarget, hfirst, hsecond, r, hr, hresult⟩ := c.accepted hperm
  refine ⟨r, ?_, hresult⟩
  unfold rollbackContract
  rw [hfields]
  dsimp only
  rw [htarget, hfirst, hsecond]
  exact hr

/-- A line that no record holds: it is padded or indented, it stands there twice, or it does not
give a value, itself without padding, to a key of the vocabulary. -/
def Refused (text raw : PyStr) : Prop :=
  raw ≠ strip raw ∨ 1 < (recordLines text).count raw
    ∨ ¬∃ key ∈ knownKeys, ∃ value, strip value = value ∧ value ≠ [] ∧ raw = fieldLine (key, value)

/-- **The rollback contract has one meaning.** A text is accepted just when its lines, those that
are blank or comments aside, are those of a `Contract` in some order; what is returned does not
depend on the order or on the lines that do not count; and a line that no record holds is enough to
refuse it. -/
theorem rollback_contract_exact (text : PyStr) :
    ((rollbackContract text false false).isSome = true ↔
      ∃ c : Contract, (recordLines text).Perm c.lines)
    ∧ (∀ c : Contract, (recordLines text).Perm c.lines →
      ∃ r, rollbackContract text false false = some r ∧ r.Perm c.result)
    ∧ (∀ text', (recordLines text).Perm (recordLines text') →
      Option.Rel List.Perm (rollbackContract text false false) (rollbackContract text' false false))
    ∧ ∀ raw ∈ recordLines text, Refused text raw → rollbackContract text false false = none := by
  have hlines {text : PyStr} {r : Fields} (h : rollbackContract text false false = some r) :
      ∃ c : Contract, (recordLines text).Perm c.lines ∧ r.Perm c.result := by
    obtain ⟨c, fields, hlines, hperm, hresult⟩ := rollbackContract_fields h
    exact ⟨c, hlines ▸ hperm.map fieldLine, hresult⟩
  refine ⟨⟨fun h => ?_, fun ⟨c, h⟩ => ?_⟩, fun c h =>
    rollbackContract_of_lines h, fun text' hperm => ?_,
    fun raw hraw hrefused => ?_⟩
  · obtain ⟨r, hr⟩ := Option.isSome_iff_exists.mp h
    obtain ⟨c, hc, -⟩ := hlines hr
    exact ⟨c, hc⟩
  · obtain ⟨r, hr, -⟩ := rollbackContract_of_lines h
    rw [hr]
    rfl
  · cases hr : rollbackContract text false false with
    | some r =>
      obtain ⟨c, hc, hresult⟩ := hlines hr
      obtain ⟨r', hr', hresult'⟩ := rollbackContract_of_lines (hperm.symm.trans hc)
      rw [hr']
      exact .some (hresult.trans hresult'.symm)
    | none =>
      cases hr' : rollbackContract text' false false with
      | none => exact .none
      | some r' =>
        obtain ⟨c, hc, -⟩ := hlines hr'
        obtain ⟨r, hr'', -⟩ := rollbackContract_of_lines (hperm.trans hc)
        exact absurd (hr.symm.trans hr'') (by simp)
  · cases hr : rollbackContract text false false with
    | none => rfl
    | some r =>
      exfalso
      obtain ⟨c, hc, -⟩ := hlines hr
      obtain ⟨f, hf, rfl⟩ := List.mem_map.mp (hc.subset hraw)
      -- the line would be one of the record, which is well spelled, alone and known
      rcases hrefused with hpadded | htwice | hunknown
      · exact hpadded (c.spelled hf).line.symm
      · have hnodup : c.lines.Nodup :=
          (List.nodup_map_iff_inj_on (List.Nodup.of_map _ c.nodup)).mpr fun f hf g hg heq =>
            fieldLine_inj (c.spelled hf) (c.spelled hg) heq
        have hcount := List.nodup_iff_count_le_one.mp (hc.nodup_iff.mpr hnodup) (fieldLine f)
        omega
      · obtain ⟨hkey, hvalue, hne⟩ := c.mem_fields hf
        exact hunknown ⟨f.1, hkey, f.2, hvalue, hne, rfl⟩

end SddGov.MergeGate
