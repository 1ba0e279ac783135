import SddGov.Git.Client

/-!
# Audit-only descendants

`_every_descendant_commit_is_audit_only` looks at every edge into every commit
of a range, so that an edit cannot be made in one commit and taken back in the
next. What it answers about single edges, `audit_only_descendants` says of the
trees: wherever the answer is `True`, nothing but audit paths has changed
between the start and any descendant in the range.
-/

namespace SddGov.MergeGate

open SddGov.Python SddGov.Git

def auditGatePath : PyStr := lit ".sddgov/merge-gate.json"

def auditReviewPrefix : PyStr := lit ".sddgov/reviews/"

def auditEvidencePrefix : PyStr := lit "evidence/"

/-- `_is_audit_path`. -/
def isAuditPath (path : PyStr) (includeEvidence : Bool) : Bool :=
  path == auditGatePath || auditReviewPrefix.isPrefixOf path
    || (includeEvidence && auditEvidencePrefix.isPrefixOf path)

variable {G : Client}

/-- The loop over the parents of one commit. -/
def edgesAreAuditOnly (G : Client) (includeEvidence : Bool) (commit : PyStr) :
    List PyStr → Except Exn Bool
  | [] => .ok true
  | parent :: rest => do
    match ← noneOnValue (commitEdgePaths G parent commit) with
    | none => .ok false
    | some paths =>
      if paths.any fun path => !isAuditPath path includeEvidence then .ok false
      else edgesAreAuditOnly G includeEvidence commit rest

/-- The loop over the commits of the range. -/
def commitsAreAuditOnly (G : Client) (includeEvidence : Bool) : List PyStr → Except Exn Bool
  | [] => .ok true
  | commit :: rest => do
    match ← noneOnValue (git G [lit "rev-list", lit "--parents", lit "-n", lit "1", commit]) with
    | none => .ok false
    | some text =>
      match words text with
      -- a commit without a parent does not pass
      | name :: parent :: more =>
        if name ≠ commit then .ok false
        else if ← edgesAreAuditOnly G includeEvidence commit (parent :: more) then
          commitsAreAuditOnly G includeEvidence rest
        else .ok false
      | _ => .ok false

/-- `_every_descendant_commit_is_audit_only`. -/
def everyDescendantCommitIsAuditOnly (G : Client) (start stop : PyStr) (includeEvidence : Bool) :
    Except Exn Bool := do
  let ancestor ← G.run [lit "merge-base", lit "--is-ancestor", start, stop]
  if ancestor.returncode ≠ 0 then .ok false
  else
    match ← noneOnValue (git G
      [lit "rev-list", lit "--reverse", lit "--topo-order", start ++ lit ".." ++ stop]) with
    | none => .ok false
    | some text => commitsAreAuditOnly G includeEvidence (splitLines text)

/-- `only_audit_changes_after_review`. -/
def onlyAuditChangesAfterReview (G : Client) (reviewedHead currentHead : PyStr) : Except Exn Bool :=
  everyDescendantCommitIsAuditOnly G reviewedHead currentHead false

/-! ## What the loops have looked at -/

/-- Every edge from a parent shows audit paths only; the induction is on the parents. -/
theorem edgesAreAuditOnly_ok {includeEvidence : Bool} {commit : PyStr} {parents : List PyStr}
    (h : edgesAreAuditOnly G includeEvidence commit parents = .ok true) :
    ∀ parent ∈ parents, ∃ paths, commitEdgePaths G parent commit = .ok paths
      ∧ ∀ path ∈ paths, isAuditPath path includeEvidence = true := by
  induction parents with
  | nil => simp
  | cons parent rest ih =>
    obtain ⟨found, hfound, h⟩ := except_bind_ok.mp h
    cases found with
    | none => exact absurd (Except.ok.inj h) (by simp)
    | some paths =>
      dsimp only at h
      split at h
      · exact absurd (Except.ok.inj h) (by simp)
      · next hany =>
        have haudit : ∀ path ∈ paths, isAuditPath path includeEvidence = true := by
          simpa using hany
        intro p hp
        rcases List.mem_cons.mp hp with rfl | hp
        · exact ⟨paths, noneOnValue_some hfound, haudit⟩
        · exact ih h p hp

/-- Every commit of the list has parents, and the edges from all of them were looked at. -/
theorem commitsAreAuditOnly_ok {includeEvidence : Bool} {commits : List PyStr}
    (h : commitsAreAuditOnly G includeEvidence commits = .ok true) :
    ∀ commit ∈ commits, ∃ text parent more,
      git G [lit "rev-list", lit "--parents", lit "-n", lit "1", commit] = .ok text
        ∧ words text = commit :: parent :: more
        ∧ edgesAreAuditOnly G includeEvidence commit (parent :: more) = .ok true := by
  induction commits with
  | nil => simp
  | cons commit rest ih =>
    obtain ⟨found, hfound, h⟩ := except_bind_ok.mp h
    cases found with
    | none => exact absurd (Except.ok.inj h) (by simp)
    | some text =>
      dsimp only at h
      split at h
      · next name parent more hwords =>
        split at h
        · exact absurd (Except.ok.inj h) (by simp)
        · next hname =>
          obtain ⟨edges, hedges, hrest⟩ := except_bind_ok.mp h
          cases edges with
          | false => exact absurd (Except.ok.inj hrest) (by simp)
          | true =>
            obtain rfl : name = commit := by simpa using hname
            intro c hc
            rcases List.mem_cons.mp hc with rfl | hc
            · exact ⟨text, parent, more, noneOnValue_some hfound, hwords, hedges⟩
            · exact ih hrest c hc
      · exact absurd (Except.ok.inj h) (by simp)

/-! ## A history of four commits -/

theorem sampleId_hex (digit : Fin 5) :
    (!(List.replicate 40 (cp (0x61 + digit))).isEmpty
      && (List.replicate 40 (cp (0x61 + digit))).all fun c =>
      (0x30 ≤ c.val && c.val ≤ 0x39) || (0x61 ≤ c.val && c.val ≤ 0x66)) = true := by
  fin_cases digit <;> rfl

/-- An id of one repeated digit. -/
def sampleId (digit : Fin 5) :
    ObjectId := ⟨List.replicate 40 (cp (0x61 + digit)), sampleId_hex digit⟩

/-- The sample's ids differ. -/
theorem sampleId_inj {i j : Fin 5} : sampleId i = sampleId j ↔ i = j := by
  constructor
  · intro h
    have htext : List.replicate 40 (cp (0x61 + i)) = List.replicate 40 (cp (0x61 + j)) :=
      congrArg ObjectId.text h
    have hdigit : cp (0x61 + i) = cp (0x61 + j) :=
      (List.replicate_inj.mp htext).2.resolve_left (by simp)
    have hval := congrArg Fin.val hdigit
    rw [cp_val, cp_val] at hval
    omega
  · rintro rfl
    rfl

def baseId : ObjectId := sampleId 0

def changeId : ObjectId := sampleId 1

def reviewedId : ObjectId := sampleId 2

def headId : ObjectId := sampleId 3

/-- A tree without a commit. -/
def restoredId : ObjectId := sampleId 4

theorem sample_ne : baseId ≠ changeId ∧ baseId ≠ reviewedId ∧ baseId ≠ headId ∧ baseId ≠ restoredId
    ∧ changeId ≠ reviewedId ∧ changeId ≠ headId ∧ changeId ≠ restoredId ∧ reviewedId ≠ headId
    ∧ reviewedId ≠ restoredId ∧ headId ≠ restoredId := by
  simp [baseId, changeId, reviewedId, headId, restoredId, sampleId_inj]

def sampleParents (id : ObjectId) : List ObjectId :=
  if id = changeId then [baseId]
  else if id = reviewedId then [changeId]
  else if id = headId then [reviewedId]
  else []

/-- The source file in its two versions, the evidence and the gate. -/
def sampleTree (id : ObjectId) (path : PyStr) : Option Nat :=
  if path = lit "src" then
    if id = baseId ∨ id = restoredId then some 1
    else if id = changeId ∨ id = reviewedId ∨ id = headId then some 2
    else none
  else if path = lit "evidence/log" then
    if id = reviewedId ∨ id = headId ∨ id = restoredId then some 3 else none
  else if path = lit ".sddgov/merge-gate.json" then
    if id = headId then some 4 else none
  else none

def sampleDepth (id : ObjectId) : Nat :=
  if id = changeId then 1 else if id = reviewedId then 2 else if id = headId then 3 else 0

/-- A parent is nearer to the root, so the history ends. -/
theorem sampleParents_depth {p c : ObjectId} (h : p ∈ sampleParents c) :
    sampleDepth p < sampleDepth c := by
  obtain ⟨h01, h02, h03, -, h12, h13, -, h23, -⟩ := sample_ne
  unfold sampleParents at h
  unfold sampleDepth
  split at h
  · next hc =>
    obtain rfl := List.mem_singleton.mp h
    simp [hc, h01, h02, h03]
  · split at h
    · next hc =>
      obtain rfl := List.mem_singleton.mp h
      simp [hc, h12.symm]
    · split at h
      · next hc =>
        obtain rfl := List.mem_singleton.mp h
        simp [hc, h12.symm, h13.symm, h23.symm]
      · exact absurd h (by simp)

def sampleNames : List (PyStr × ObjectId) :=
  [(lit "main", baseId), (lit "HEAD", headId), (baseId.text, baseId), (changeId.text, changeId),
    (reviewedId.text, reviewedId), (headId.text, headId), (restoredId.text, restoredId)]

def sampleRev (name : PyStr) : Option ObjectId :=
    (sampleNames.find? fun e => e.1 == name).map Prod.snd

def sampleIds : List ObjectId := [baseId, changeId, reviewedId, headId, restoredId]

theorem sampleRev_known {name : PyStr} {c : ObjectId} (h : sampleRev name = some c) :
    (name, c) ∈ sampleNames := by
  obtain ⟨e, he, rfl⟩ := Option.map_eq_some_iff.mp h
  have hname : e.1 = name := by simpa using List.find?_some he
  rw [← hname]
  exact List.mem_of_find?_eq_some he

/-- A name stands for one of the sample's commits. -/
theorem sampleRev_mem {name : PyStr} {c : ObjectId} (h : sampleRev name = some c) :
    c ∈ sampleIds := by
  have hall : ∀ e ∈ sampleNames, e.2 ∈ sampleIds := by simp [sampleNames, sampleIds]
  exact hall _ (sampleRev_known h)

theorem sampleRev_id {c : ObjectId} (h : c ∈ sampleIds) : sampleRev c.text = some c := by
  have hall : ∀ c ∈ sampleIds, sampleRev c.text = some c := by decide
  exact hall c h

theorem sampleRev_text {name : PyStr} {c id : ObjectId} (hc : sampleRev name = some c)
    (h : id ∈ sampleIds) (hname : name = id.text) : c = id := by
  rw [hname] at hc
  exact Option.some.inj (hc.symm.trans (sampleRev_id h))

theorem sampleIds_of_parent {p c : ObjectId} (h : p ∈ sampleParents c) : p ∈ sampleIds := by
  unfold sampleParents at h
  split at h
  · simp [sampleIds, List.mem_singleton.mp h]
  · split at h
    · simp [sampleIds, List.mem_singleton.mp h]
    · split at h
      · simp [sampleIds, List.mem_singleton.mp h]
      · exact absurd h (by simp)

theorem sampleParents_wf : WellFounded fun parent commit => parent ∈ sampleParents commit :=
  Subrelation.wf sampleParents_depth (measure sampleDepth).wf

def sampleHistory : History ObjectId PyStr Nat := ⟨sampleParents, sampleTree, sampleParents_wf⟩

theorem sampleRev_complete (name : PyStr) (c a : ObjectId) (hc : sampleRev name = some c)
    (hac : sampleHistory.Ancestor a c) : sampleRev a.text = some a := by
  apply sampleRev_id
  -- an ancestor is the commit itself or a parent of another
  rcases Relation.ReflTransGen.cases_head hac with rfl | ⟨b, hedge, -⟩
  · exact sampleRev_mem hc
  · exact sampleIds_of_parent hedge

def sampleRepository : Repository Nat := ⟨sampleHistory, sampleRev, sampleRev_complete⟩

/-- A record with one path. -/
def addedRecord (letter path : PyStr) : PyStr := terminated nul [letter, path]

def sampleRun : Recording :=
  [([lit "merge-base", lit "--is-ancestor", baseId.text, changeId.text], done []),
    ([lit "merge-base", lit "--is-ancestor", changeId.text, reviewedId.text], done []),
    ([lit "merge-base", lit "--is-ancestor", reviewedId.text, headId.text], done []),
    ([lit "rev-list", lit "--reverse", lit "--topo-order", changeId.text ++ lit ".."
      ++ reviewedId.text],
      done (terminated lf [reviewedId.text])),
    ([lit "rev-list", lit "--reverse", lit "--topo-order", reviewedId.text ++ lit ".."
      ++ headId.text],
      done (terminated lf [headId.text])),
    ([lit "rev-list", lit "--parents", lit "-n", lit "1", changeId.text],
      done (spaced [changeId.text, baseId.text] ++ [lf])),
    ([lit "rev-list", lit "--parents", lit "-n", lit "1", reviewedId.text],
      done (spaced [reviewedId.text, changeId.text] ++ [lf])),
    ([lit "rev-list", lit "--parents", lit "-n", lit "1", headId.text],
      done (spaced [headId.text, reviewedId.text] ++ [lf])),
    ([lit "diff", lit "-M", lit "--name-status", lit "-z", changeId.text,
      reviewedId.text, lit "--"],
      done (addedRecord (lit "A") (lit "evidence/log"))),
    ([lit "diff", lit "-M", lit "--name-status", lit "-z", reviewedId.text, headId.text, lit "--"],
      done (addedRecord (lit "A") (lit ".sddgov/merge-gate.json")))]

/-- The commands a recording of the graph has to answer rightly. -/
def isGraphCommand (args : List PyStr) : Bool :=
  args.head? == some (lit "merge-base") || args.take 2 == [lit "rev-list", lit "--reverse"]
    || args.take 2 == [lit "rev-list", lit "--parents"]
    || (args.take 2 == [lit "diff", lit "-M"] && args.length == 7)

section Sample

variable {extra : Recording}

/-- A graph command is answered from the recording of the graph. -/
theorem sampleRun_mem (hextra : ∀ e ∈ extra, isGraphCommand e.1 = false) {args : List PyStr}
    {completed : Completed} (hargs : isGraphCommand args = true)
    (h : Recording.answer (sampleRun ++ extra) args = .ok completed) :
    (args, completed) ∈ sampleRun := by
  rcases List.mem_append.mp (Recording.answer_mem h) with hmem | hmem
  · exact hmem
  · have hnot := hextra _ hmem
    rw [hargs] at hnot
    exact absurd hnot (by simp)

/-- Two of the sample's names with the commits they stand for, in one range. -/
theorem sample_range {start stop : PyStr} {a c p q : ObjectId} (ha : sampleRev start = some a)
    (hc : sampleRev stop = some c)
    (hpq : (p, q) ∈ [(changeId, reviewedId), (reviewedId, headId), (changeId, headId)])
    (h : start ++ lit ".." ++ stop = p.text ++ lit ".." ++ q.text) : a = p ∧ c = q := by
  have hall : ∀ s ∈ sampleNames, ∀ t ∈ sampleNames,
      ∀ e ∈ [(changeId, reviewedId), (reviewedId, headId), (changeId, headId)],
      s.1 ++ lit ".." ++ t.1 = e.1.text ++ lit ".." ++ e.2.text → s.2 = e.1 ∧ t.2 = e.2 := by
    decide
  exact hall _ (sampleRev_known ha) _ (sampleRev_known hc) _ hpq h

theorem sampleTree_change (path : PyStr) : path = lit "evidence/log"
    ↔ sampleTree changeId path ≠ sampleTree reviewedId path := by
  have hids := sample_ne
  have hback := hids.imp Ne.symm fun h => h.1.symm
  unfold sampleTree
  by_cases hsrc : path = lit "src"
  · simp [hsrc, hids, hback]
  · by_cases hlog : path = lit "evidence/log"
    · simp [hlog, hids]
    · simp [hsrc, hlog, hids]

theorem sampleTree_review (path : PyStr) : path = lit ".sddgov/merge-gate.json"
    ↔ sampleTree reviewedId path ≠ sampleTree headId path := by
  have hids := sample_ne
  have hback : headId ≠ baseId ∧ reviewedId ≠ baseId := ⟨hids.2.2.1.symm, hids.2.1.symm⟩
  unfold sampleTree
  by_cases hsrc : path = lit "src"
  · simp [hsrc, hids, hback]
  · by_cases hlog : path = lit "evidence/log"
    · simp [hlog, hids]
    · simp [hsrc, hlog, hids]

theorem added_letter : ∃ c rest, lit "A" = c :: rest ∧ isSpace c = false := ⟨cp 0x41, [], rfl, rfl⟩

theorem addedPath_clean {path : PyStr} (h : nul ∉ path) :
    ∀ s ∈ lit "A" :: ((none : Option PyStr).toList ++ [path]), nul ∉ s := by
  intro s hs
  simp only [Option.toList_none, List.nil_append, List.mem_cons, List.not_mem_nil, or_false] at hs
  rcases hs with rfl | rfl
  · decide
  · exact h

/-- The record of an added path. -/
def addedPath (path : PyStr) (h : nul ∉ path) : ChangeRecord :=
  ⟨lit "A", none, path, added_letter, rfl, addedPath_clean h⟩

/-- The recording follows the sample repository, whatever else is recorded beside it. -/
theorem sample_follows (isolated : List PyStr → Except Exn Completed)
    (hextra : ∀ e ∈ extra, isGraphCommand e.1 = false) :
    Follows ⟨Recording.answer (sampleRun ++ extra), isolated⟩ sampleRepository where
  isAncestor := by
    intro older newer completed hrun _
    have hmem := sampleRun_mem hextra (by simp [isGraphCommand]) hrun
    have hedge {p c : ObjectId} (h : p ∈ sampleParents c) : sampleHistory.Ancestor p c := .single h
    obtain ⟨-, -, -, -, h12, h13, -, h23, -⟩ := sample_ne
    have hid {c : ObjectId} (h : c ∈ sampleIds) : sampleRepository.rev c.text = some c :=
      sampleRev_id h
    simp only [sampleRun, List.mem_cons, Prod.mk.injEq, List.cons.injEq, lit_inj, String.reduceEq,
      reduceCtorEq, and_true, true_and, false_and, and_false, or_false, List.not_mem_nil] at hmem
    rcases hmem with ⟨⟨rfl, rfl⟩, -⟩ | ⟨⟨rfl, rfl⟩, -⟩ | ⟨⟨rfl, rfl⟩, -⟩
    · exact ⟨baseId, changeId, hid (by simp [sampleIds]), hid (by simp [sampleIds]),
        hedge (by simp [sampleParents])⟩
    · exact ⟨changeId, reviewedId, hid (by simp [sampleIds]), hid (by simp [sampleIds]),
        hedge (by simp [sampleParents, h12.symm])⟩
    · exact ⟨reviewedId, headId, hid (by simp [sampleIds]), hid (by simp [sampleIds]),
        hedge (by simp [sampleParents, h13.symm, h23.symm])⟩
  range := by
    intro start stop a c completed ha hc hrun _
    obtain ⟨-, -, -, -, h12, h13, -, h23, -⟩ := sample_ne
    have hmem := sampleRun_mem hextra (by simp [isGraphCommand]) hrun
    simp only [sampleRun, List.mem_cons, Prod.mk.injEq, List.cons.injEq, lit_inj, String.reduceEq,
      reduceCtorEq, and_true, true_and, false_and, and_false, false_or, or_false, List.not_mem_nil]
        at hmem
    rcases hmem with ⟨hargs, rfl⟩ | ⟨hargs, rfl⟩
    · obtain ⟨rfl, rfl⟩ := sample_range ha hc (by simp) hargs
      exact ⟨[reviewedId], rfl, fun id => List.mem_singleton.trans
        (History.inRange_parent (H := sampleHistory)
          (by simp [sampleHistory, sampleParents, h12.symm])).symm⟩
    · obtain ⟨rfl, rfl⟩ := sample_range ha hc (by simp) hargs
      exact ⟨[headId], rfl, fun id => List.mem_singleton.trans
        (History.inRange_parent (H := sampleHistory)
          (by simp [sampleHistory, sampleParents, h13.symm, h23.symm])).symm⟩
  parents := by
    intro name c completed hc hrun _
    have hmem := sampleRun_mem hextra (by simp [isGraphCommand]) hrun
    simp only [sampleRun, List.mem_cons, Prod.mk.injEq, List.cons.injEq, lit_inj, String.reduceEq,
      reduceCtorEq, and_true, true_and, false_and, and_false, false_or, or_false, List.not_mem_nil]
        at hmem
    rcases hmem with ⟨hname, rfl⟩ | ⟨hname, rfl⟩ | ⟨hname, rfl⟩
    · obtain rfl := sampleRev_text hc (by simp [sampleIds]) hname
      decide
    · obtain rfl := sampleRev_text hc (by simp [sampleIds]) hname
      decide
    · obtain rfl := sampleRev_text hc (by simp [sampleIds]) hname
      decide
  edge := by
    intro old new a c completed ha hc hrun _
    have hmem := sampleRun_mem hextra (by simp [isGraphCommand]) hrun
    simp only [sampleRun, List.mem_cons, Prod.mk.injEq, List.cons.injEq, lit_inj, String.reduceEq,
      reduceCtorEq, and_true, true_and, false_and, and_false, false_or, or_false, List.not_mem_nil]
        at hmem
    rcases hmem with ⟨⟨ho, hn⟩, rfl⟩ | ⟨⟨ho, hn⟩, rfl⟩
    · obtain rfl := sampleRev_text ha (by simp [sampleIds]) ho
      obtain rfl := sampleRev_text hc (by simp [sampleIds]) hn
      refine ⟨[addedPath (lit "evidence/log") (by decide)], by decide, fun path => ?_⟩
      exact List.mem_singleton.trans (sampleTree_change path)
    · obtain rfl := sampleRev_text ha (by simp [sampleIds]) ho
      obtain rfl := sampleRev_text hc (by simp [sampleIds]) hn
      refine ⟨[addedPath (lit ".sddgov/merge-gate.json") (by decide)], by decide,
        fun path => ?_⟩
      exact List.mem_singleton.trans (sampleTree_review path)

end Sample

/-! ## The trees -/

/-- The paths a pass of the check may change. -/
def AuditPath (includeEvidence : Bool) (path : PyStr) :
    Prop := isAuditPath path includeEvidence = true

variable {β : Type} {R : Repository β} {start stop : PyStr} {includeEvidence : Bool}

/-- A commit of the range has parents, and its tree agrees with each of theirs off the audit
paths. -/
theorem commit_audit_only (hG : Follows G R) {c stopId : ObjectId}
    (hstop : R.rev stop = some stopId) (hreached : R.history.Ancestor c stopId)
    {commits : List PyStr} (hc : c.text ∈ commits)
    (h : commitsAreAuditOnly G includeEvidence commits = .ok true) :
    R.history.parents c ≠ [] ∧ ∀ p ∈ R.history.parents c,
      AgreeOff (AuditPath includeEvidence) (R.history.tree p) (R.history.tree c) := by
  obtain ⟨text, parent, more, hrow, hwords, hedges⟩ := commitsAreAuditOnly_ok h c.text hc
  have hrev : R.rev c.text = some c := R.complete stop stopId c hstop hreached
  have hlisted := parents_ok hG hrev hrow
  rw [hwords, List.map_cons] at hlisted
  have hparents : parent :: more = (R.history.parents c).map ObjectId.text :=
    (List.cons.inj hlisted).2
  refine ⟨fun hnil => ?_, fun p hp path hpath => ?_⟩
  · rw [hnil] at hparents
    exact absurd hparents (by simp)
  · have hmem : p.text ∈ parent :: more := by
      rw [hparents]
      exact List.mem_map_of_mem hp
    obtain ⟨paths, hpaths, haudit⟩ := edgesAreAuditOnly_ok hedges p.text hmem
    have hprev : R.rev p.text = some p :=
      R.complete stop stopId p hstop (.head hp hreached)
    by_contra hne
    have hchanged := (commitEdgePaths_ok hG hprev hrev hpaths path).mpr hne
    exact hpath (haudit path hchanged)

/-- What a pass has looked at: the two ends, and every commit between them. -/
theorem everyDescendantCommitIsAuditOnly_ok (hG : Follows G R)
    (h : everyDescendantCommitIsAuditOnly G start stop includeEvidence = .ok true) :
    ∃ a c, R.rev start = some a ∧ R.rev stop = some c ∧ R.history.Ancestor a c
      ∧ ∀ id, R.history.InRange a c id → R.history.parents id ≠ []
        ∧ ∀ p ∈ R.history.parents id,
          AgreeOff (AuditPath includeEvidence) (R.history.tree p) (R.history.tree id) := by
  obtain ⟨ancestor, hrun, h⟩ := except_bind_ok.mp h
  split at h
  · exact absurd (Except.ok.inj h) (by simp)
  · next hcode =>
    obtain ⟨a, c, ha, hc, hancestor⟩ :=
      hG.isAncestor start stop ancestor hrun (not_not.mp hcode)
    obtain ⟨listed, hlisted, h⟩ := except_bind_ok.mp h
    cases listed with
    | none => exact absurd (Except.ok.inj h) (by simp)
    | some text =>
      obtain ⟨ids, htext, hids⟩ := range_ok hG ha hc (noneOnValue_some hlisted)
      refine ⟨a, c, ha, hc, hancestor, fun id hid => ?_⟩
      have hmem : id.text ∈ splitLines text := by
        rw [htext]
        exact List.mem_map_of_mem ((hids id).mpr hid)
      exact commit_audit_only hG hc hid.reached hmem h

theorem descendants_agree (hG : Follows G R)
    (h : everyDescendantCommitIsAuditOnly G start stop includeEvidence = .ok true) :
    ∃ a c, R.rev start = some a ∧ R.rev stop = some c
      ∧ AgreeOff (AuditPath includeEvidence) (R.history.tree a) (R.history.tree c) := by
  obtain ⟨a, c, ha, hc, hancestor, hrange⟩ := everyDescendantCommitIsAuditOnly_ok hG h
  exact ⟨a, c, ha, hc, agree_of_edges (fun id hid => (hrange id hid).2) hancestor .refl⟩

/-- **Audit-only descendants leave the reviewed change intact.** -/
theorem audit_only_descendants (hG : Follows G R)
    (h : everyDescendantCommitIsAuditOnly G start stop includeEvidence = .ok true) :
    ∃ a c, R.rev start = some a ∧ R.rev stop = some c ∧ R.history.Ancestor a c
      ∧ (∀ id, R.history.Ancestor a id → R.history.Ancestor id c →
        AgreeOff (AuditPath includeEvidence) (R.history.tree a) (R.history.tree id))
      ∧ ∀ id, R.history.InRange a c id → R.history.parents id ≠ [] := by
  obtain ⟨a, c, ha, hc, hancestor, hrange⟩ := everyDescendantCommitIsAuditOnly_ok hG h
  refine ⟨a, c, ha, hc, hancestor, fun id hstart hstop => ?_, fun id hid => (hrange id hid).1⟩
  exact agree_of_edges (fun id hid => (hrange id hid).2) hstart hstop

/-! ## A range with a merge -/

/-- A second history of the same commits, in which `headId` merges `reviewedId` and `restoredId`. -/
def mergedParents (id : ObjectId) : List ObjectId :=
  if id = headId then [reviewedId, restoredId]
  else if id = reviewedId ∨ id = restoredId then [changeId]
  else []

/-- Each side of the merge adds a file, and the merge has both. -/
def mergedTree (id : ObjectId) (path : PyStr) : Option Nat :=
  if path = lit "src" then some 2
  else if path = lit "evidence/log" then
    if id = reviewedId ∨ id = headId then some 3 else none
  else if path = lit "evidence/trace" then
    if id = restoredId ∨ id = headId then some 4 else none
  else none

theorem mem_mergedParents {p c : ObjectId} : p ∈ mergedParents c ↔
    (c = headId ∧ (p = reviewedId ∨ p = restoredId))
      ∨ ((c = reviewedId ∨ c = restoredId) ∧ p = changeId) := by
  obtain ⟨-, -, -, -, -, -, -, h23, -, h34⟩ := sample_ne
  unfold mergedParents
  split
  · next hc => simp [hc, h23.symm, h34]
  · next hc =>
    split
    · next hside => simp [hc, hside]
    · next hside => simp [hc, hside]

def mergedDepth (id : ObjectId) : Nat :=
  if id = headId then 2 else if id = reviewedId ∨ id = restoredId then 1 else 0

theorem mergedParents_depth {p c : ObjectId} (h : p ∈ mergedParents c) :
    mergedDepth p < mergedDepth c := by
  obtain ⟨-, -, -, -, h12, h13, h14, h23, h24, h34⟩ := sample_ne
  unfold mergedDepth
  rcases mem_mergedParents.mp h with ⟨rfl, rfl | rfl⟩ | ⟨rfl | rfl, rfl⟩
  · simp [h23]
  · simp [h34.symm]
  · simp [h12, h13, h14, h23]
  · simp [h12, h13, h14, h34.symm]

def mergedHistory : History ObjectId PyStr Nat :=
  ⟨mergedParents, mergedTree, Subrelation.wf mergedParents_depth (measure mergedDepth).wf⟩

theorem mergedRev_complete (name : PyStr) (c a : ObjectId) (hc : sampleRev name = some c)
    (hac : mergedHistory.Ancestor a c) : sampleRev a.text = some a := by
  apply sampleRev_id
  rcases Relation.ReflTransGen.cases_head hac with rfl | ⟨b, hedge, -⟩
  · exact sampleRev_mem hc
  · rcases mem_mergedParents.mp hedge with ⟨-, rfl | rfl⟩ | ⟨-, rfl⟩
    · simp [sampleIds]
    · simp [sampleIds]
    · simp [sampleIds]

def mergedRepository : Repository Nat := ⟨mergedHistory, sampleRev, mergedRev_complete⟩

def mergedRun : Recording :=
  [([lit "merge-base", lit "--is-ancestor", changeId.text, headId.text], done []),
    ([lit "rev-list", lit "--reverse", lit "--topo-order", changeId.text ++ lit ".."
      ++ headId.text],
      done (terminated lf [reviewedId.text, restoredId.text, headId.text])),
    ([lit "rev-list", lit "--parents", lit "-n", lit "1", reviewedId.text],
      done (spaced [reviewedId.text, changeId.text] ++ [lf])),
    ([lit "rev-list", lit "--parents", lit "-n", lit "1", restoredId.text],
      done (spaced [restoredId.text, changeId.text] ++ [lf])),
    ([lit "rev-list", lit "--parents", lit "-n", lit "1", headId.text],
      done (spaced [headId.text, reviewedId.text, restoredId.text] ++ [lf])),
    ([lit "diff", lit "-M", lit "--name-status", lit "-z", changeId.text,
      reviewedId.text, lit "--"],
      done (addedRecord (lit "A") (lit "evidence/log"))),
    ([lit "diff", lit "-M", lit "--name-status", lit "-z", changeId.text,
      restoredId.text, lit "--"],
      done (addedRecord (lit "A") (lit "evidence/trace"))),
    ([lit "diff", lit "-M", lit "--name-status", lit "-z", reviewedId.text, headId.text, lit "--"],
      done (addedRecord (lit "A") (lit "evidence/trace"))),
    ([lit "diff", lit "-M", lit "--name-status", lit "-z", restoredId.text, headId.text, lit "--"],
      done (addedRecord (lit "A") (lit "evidence/log")))]

theorem merged_edge {p c : ObjectId} (h : p ∈ mergedParents c) : mergedHistory.Ancestor p c :=
  .single h

/-- The range from the change to the merge has both sides and the merge. -/
theorem mergedRange (id : ObjectId) :
    id ∈ [reviewedId, restoredId, headId] ↔ mergedHistory.InRange changeId headId id := by
  have hleft : changeId ∈ mergedParents reviewedId := mem_mergedParents.mpr (.inr ⟨.inl rfl, rfl⟩)
  have hright : changeId ∈ mergedParents restoredId := mem_mergedParents.mpr (.inr ⟨.inr rfl, rfl⟩)
  have hfirst : reviewedId ∈ mergedParents headId := mem_mergedParents.mpr (.inl ⟨rfl, .inl rfl⟩)
  have hsecond : restoredId ∈ mergedParents headId := mem_mergedParents.mpr (.inl ⟨rfl, .inr rfl⟩)
  simp only [List.mem_cons, List.not_mem_nil, or_false]
  constructor
  · rintro (rfl | rfl | rfl)
    · exact History.inRange_of_child .refl hleft (merged_edge hfirst)
    · exact History.inRange_of_child .refl hright (merged_edge hsecond)
    · exact History.inRange_of_child (merged_edge hleft) hfirst .refl
  · intro hid
    -- from the merge one edge back to a side, and from there only to the excluded change
    rcases Relation.ReflTransGen.cases_tail hid.reached with rfl | ⟨p, hp, hedge⟩
    · exact .inr (.inr rfl)
    · have hparent : p ∈ mergedParents headId := hedge
      have hside : p = reviewedId ∨ p = restoredId := by
        obtain ⟨-, -, -, -, -, -, -, h23, -, h34⟩ := sample_ne
        rcases mem_mergedParents.mp hparent with ⟨-, hside⟩ | ⟨hhead | hhead, -⟩
        · exact hside
        · exact absurd hhead h23.symm
        · exact absurd hhead h34
      rcases Relation.ReflTransGen.cases_tail hp with rfl | ⟨q, hq, hback⟩
      · exact hside.imp id .inl
      · have hparent : q ∈ mergedParents p := hback
        have hchange : q = changeId := by
          obtain ⟨-, -, -, -, -, -, -, h23, -, h34⟩ := sample_ne
          rcases mem_mergedParents.mp hparent with ⟨hhead, -⟩ | ⟨-, hchange⟩
          · rcases hside with rfl | rfl
            · exact absurd hhead h23
            · exact absurd hhead h34.symm
          · exact hchange
        rw [hchange] at hq
        exact absurd hq hid.excluded

/-- Each file is added on the way into its side, and into the merge from the other side. -/
theorem mergedTree_edges (path : PyStr) :
    ((path = lit "evidence/log" ↔ mergedTree changeId path ≠ mergedTree reviewedId path)
      ∧ (path = lit "evidence/log" ↔ mergedTree restoredId path ≠ mergedTree headId path))
    ∧ (path = lit "evidence/trace" ↔ mergedTree changeId path ≠ mergedTree restoredId path)
      ∧ (path = lit "evidence/trace" ↔ mergedTree reviewedId path ≠ mergedTree headId path) := by
  obtain ⟨-, -, -, -, h12, h13, h14, h23, h24, h34⟩ := sample_ne
  unfold mergedTree
  by_cases hsrc : path = lit "src"
  · simp [hsrc]
  · by_cases hlog : path = lit "evidence/log"
    · simp [hlog, h12, h13, h24.symm, h34.symm]
    · by_cases htrace : path = lit "evidence/trace"
      · simp [htrace, h13, h14, h23, h24]
      · simp [hsrc, hlog, htrace]

/-- The recording follows the repository with the merge. -/
theorem merged_follows (isolated : List PyStr → Except Exn Completed) :
    Follows ⟨Recording.answer mergedRun, isolated⟩ mergedRepository where
  isAncestor := by
    intro older newer completed hrun _
    have hmem := Recording.answer_mem hrun
    simp only [mergedRun, List.mem_cons, Prod.mk.injEq, List.cons.injEq, lit_inj, String.reduceEq,
      reduceCtorEq, and_true, true_and, false_and, and_false, or_false, List.not_mem_nil] at hmem
    obtain ⟨⟨rfl, rfl⟩, -⟩ := hmem
    have hid {c : ObjectId} (h : c ∈ sampleIds) : mergedRepository.rev c.text = some c :=
      sampleRev_id h
    refine ⟨changeId, headId, hid (by simp [sampleIds]), hid (by simp [sampleIds]), ?_⟩
    exact ((mergedRange reviewedId).mp (by simp)).reached.head
      (mem_mergedParents.mpr (.inr ⟨.inl rfl, rfl⟩))
  range := by
    intro start stop a c completed ha hc hrun _
    have hmem := Recording.answer_mem hrun
    simp only [mergedRun, List.mem_cons, Prod.mk.injEq, List.cons.injEq, lit_inj, String.reduceEq,
      reduceCtorEq, and_true, true_and, false_and, and_false, false_or, or_false,
      List.not_mem_nil] at hmem
    obtain ⟨hargs, rfl⟩ := hmem
    obtain ⟨rfl, rfl⟩ := sample_range ha hc (by simp) hargs
    exact ⟨[reviewedId, restoredId, headId], rfl, mergedRange⟩
  parents := by
    intro name c completed hc hrun _
    have hmem := Recording.answer_mem hrun
    simp only [mergedRun, List.mem_cons, Prod.mk.injEq, List.cons.injEq, lit_inj, String.reduceEq,
      reduceCtorEq, and_true, true_and, false_and, and_false, false_or, or_false,
      List.not_mem_nil] at hmem
    rcases hmem with ⟨hname, rfl⟩ | ⟨hname, rfl⟩ | ⟨hname, rfl⟩
    · obtain rfl := sampleRev_text hc (by simp [sampleIds]) hname
      decide
    · obtain rfl := sampleRev_text hc (by simp [sampleIds]) hname
      decide
    · obtain rfl := sampleRev_text hc (by simp [sampleIds]) hname
      decide
  edge := by
    intro old new a c completed ha hc hrun _
    have hmem := Recording.answer_mem hrun
    simp only [mergedRun, List.mem_cons, Prod.mk.injEq, List.cons.injEq, lit_inj, String.reduceEq,
      reduceCtorEq, and_true, true_and, false_and, and_false, false_or, or_false,
      List.not_mem_nil] at hmem
    rcases hmem with ⟨⟨ho, hn⟩, rfl⟩ | ⟨⟨ho, hn⟩, rfl⟩ | ⟨⟨ho, hn⟩, rfl⟩ | ⟨⟨ho, hn⟩, rfl⟩
    · obtain rfl := sampleRev_text ha (by simp [sampleIds]) ho
      obtain rfl := sampleRev_text hc (by simp [sampleIds]) hn
      refine ⟨[addedPath (lit "evidence/log") (by decide)], by decide, fun path => ?_⟩
      exact List.mem_singleton.trans (mergedTree_edges path).1.1
    · obtain rfl := sampleRev_text ha (by simp [sampleIds]) ho
      obtain rfl := sampleRev_text hc (by simp [sampleIds]) hn
      refine ⟨[addedPath (lit "evidence/trace") (by decide)], by decide, fun path => ?_⟩
      exact List.mem_singleton.trans (mergedTree_edges path).2.1
    · obtain rfl := sampleRev_text ha (by simp [sampleIds]) ho
      obtain rfl := sampleRev_text hc (by simp [sampleIds]) hn
      refine ⟨[addedPath (lit "evidence/trace") (by decide)], by decide, fun path => ?_⟩
      exact List.mem_singleton.trans (mergedTree_edges path).2.2
    · obtain rfl := sampleRev_text ha (by simp [sampleIds]) ho
      obtain rfl := sampleRev_text hc (by simp [sampleIds]) hn
      refine ⟨[addedPath (lit "evidence/log") (by decide)], by decide, fun path => ?_⟩
      exact List.mem_singleton.trans (mergedTree_edges path).1.2

/-- Every edge of a range with a merge is looked at, those into the merge from both sides. -/
theorem audit_only_descendants_sample :
    ∃ a c, mergedRepository.rev changeId.text = some a ∧ mergedRepository.rev headId.text = some c
      ∧ mergedHistory.Ancestor a c
      ∧ (∀ id, mergedHistory.Ancestor a id → mergedHistory.Ancestor id c →
        AgreeOff (AuditPath true) (mergedTree a) (mergedTree id))
      ∧ ∀ id, mergedHistory.InRange a c id → mergedParents id ≠ [] :=
  audit_only_descendants (merged_follows fun _ => .ok (done [])) (by decide)

end SddGov.MergeGate
