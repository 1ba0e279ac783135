import SddGov.MergeGate.Gate

/-!
# One revertible commit

What a merge-ready gate says about the trees. The rollback commit has one
parent; between it and the reviewed head only evidence and audit paths have
changed, and between that and `HEAD` only audit paths. So a revert of the
commit meets no change of anybody else, the merge that was tried took the
parent's side everywhere, and the comparison with the base was a comparison of
the parent with the base (`merge_ready_revertible`).
-/

namespace SddGov.MergeGate

open SddGov.Python SddGov.Git

/-- What the rollback leaves out: evidence, reviews, the gate file and what a path below it would
be. -/
def RollbackPath (path : PyStr) : Prop :=
  isAuditPath path true = true ∨ (auditGatePath ++ lit "/").isPrefixOf path = true

variable {β : Type} [DecidableEq β]

/-- The client answers for the repository in what the rollback asks as well. -/
structure FollowsMerge (G : Client) (R : Repository β) : Prop extends Follows G R where
  /-- `rev-parse --verify name^{commit}` -/
  peels : ∀ name done, G.run [lit "rev-parse", lit "--verify", peeled name] = .ok done →
    done.returncode = 0 → ∃ c, R.rev name = some c ∧ done.stdout = c.text ++ [lf]
  /-- `merge-tree` writes the tree of a merge without conflicts -/
  mergeTree : ∀ temporary base ours theirs b o t done, R.rev base = some b → R.rev ours = some o →
    R.rev theirs = some t → G.isolated (mergeTreeArgs temporary base ours theirs) = .ok done →
    done.returncode = 0 → ∃ result, R.rev (strip done.stdout) = some result
      ∧ Merges (R.history.tree b) (R.history.tree o) (R.history.tree t) (R.history.tree result)
  /-- `diff --quiet` with the excluded paths -/
  quiet : ∀ old new a c done, R.rev old = some a → R.rev new = some c →
    G.isolated (restoreDiffArgs old new) = .ok done → done.returncode = 0 →
    AgreeOff RollbackPath (R.history.tree a) (R.history.tree c)

variable {M : MergeHost} {R : Repository β}

theorem peel_ok {G : Client} (hG : FollowsMerge G R) {name sha : PyStr}
    (h : git G [lit "rev-parse", lit "--verify", peeled name] = .ok sha) :
    ∃ c, R.rev name = some c ∧ sha = c.text := by
  obtain ⟨done, hrun, hcode, rfl⟩ := git_ok h
  obtain ⟨c, hc, hout⟩ := hG.peels name done hrun hcode
  refine ⟨c, hc, ?_⟩
  rw [hout]
  exact strip_append c.word.trimmed (by simp [lf, isSpace])

/-- The rollback commit is the one its id names. -/
theorem rollbackRef_ok (hG : FollowsMerge M.git R) {rollbackRef baseSha headSha : PyStr}
    (h : rollbackRefIsInCandidateRange M rollbackRef baseSha headSha = .ok true) :
    ∃ r, R.rev rollbackRef = some r ∧ r.text = rollbackRef := by
  obtain ⟨found, hfound, h⟩ := except_bind_ok.mp h
  cases found with
  | none => exact absurd (Except.ok.inj h) (by simp)
  | some resolved =>
    dsimp only at h
    split at h
    · exact absurd (Except.ok.inj h) (by simp)
    · next hsame =>
      obtain ⟨r, hr, hresolved⟩ := peel_ok hG (noneOnValue_some hfound)
      refine ⟨r, hr, ?_⟩
      rw [← hresolved]
      by_contra hne
      exact hsame (.inl hne)

/-- What a clean revert has been through. -/
structure RevertChecked (M : MergeHost) (R : Repository β) (rollbackRef baseSha headSha : PyStr)
    (r p : ObjectId) : Prop where
  parents : R.history.parents r = [p]
  audited : everyDescendantCommitIsAuditOnly M.git rollbackRef headSha true = .ok true
  restored : revertRestoresBase M rollbackRef baseSha headSha p.text = .ok true

theorem falseOnOsOrTimeout_true {x : Except Exn Bool} (h : falseOnOsOrTimeout x = .ok true) :
    x = .ok true := by
  unfold falseOnOsOrTimeout at h
  split at h
  · exact absurd (Except.ok.inj h) (by simp)
  · exact absurd (Except.ok.inj h) (by simp)
  · exact h

theorem not_bool_ok {x : Except Exn Bool} {y : Except Exn Bool} (h : (do
    if !(← x) then .ok false else y) = .ok true) : x = .ok true ∧ y = .ok true := by
  obtain ⟨b, hb, h⟩ := except_bind_ok.mp h
  cases b with
  | false => exact absurd (Except.ok.inj h) (by simp)
  | true => exact ⟨hb, h⟩

/-- A rollback reference that passes has passed the trial of its revert, made of one commit of the
repository. -/
theorem cleanlyRevertible_ok (hG : FollowsMerge M.git R) {rollbackRef baseSha headSha : PyStr}
    {r : ObjectId} (hr : R.rev rollbackRef = some r)
    (h : rollbackRefIsCleanlyRevertible M rollbackRef baseSha headSha = .ok true) :
    ∃ p, RevertChecked M R rollbackRef baseSha headSha r p := by
  obtain ⟨found, hfound, h⟩ := except_bind_ok.mp h
  cases found with
  | none => exact absurd (Except.ok.inj h) (by simp)
  | some row =>
    have hwords := parents_ok hG.toFollows hr (noneOnValue_some hfound)
    dsimp only at h
    split at h
    · next name parent hrow =>
      rw [hrow, List.map_cons] at hwords
      obtain ⟨-, hparents⟩ := List.cons.inj hwords
      -- the row has one parent, so the commit has
      obtain ⟨p, rest, hlist⟩ : ∃ p rest, R.history.parents r = p :: rest := by
        cases hlist : R.history.parents r with
        | nil => exact absurd hparents (by simp [hlist])
        | cons p rest => exact ⟨p, rest, rfl⟩
      rw [hlist, List.map_cons] at hparents
      obtain ⟨rfl, hrest⟩ := List.cons.inj hparents
      have hnil : rest = [] := List.map_eq_nil_iff.mp hrest.symm
      split at h
      · exact absurd (Except.ok.inj h) (by simp)
      · obtain ⟨-, h⟩ := not_bool_ok h
        obtain ⟨haudited, h⟩ := not_bool_ok h
        obtain ⟨-, h⟩ := not_bool_ok h
        exact ⟨p, by rw [hlist, hnil], haudited, falseOnOsOrTimeout_true h⟩
    · exact absurd (Except.ok.inj h) (by simp)

/-- The tried revert: a merge without conflicts, whose tree is the base off the excluded paths. -/
theorem revertRestoresBase_ok (hG : FollowsMerge M.git R)
    {rollbackRef baseSha headSha : PyStr} {r p base head : ObjectId}
    (hr : R.rev rollbackRef = some r) (hp : R.rev p.text = some p) (hb : R.rev baseSha = some base)
    (hh : R.rev headSha = some head)
    (h : revertRestoresBase M rollbackRef baseSha headSha p.text = .ok true) :
    ∃ result, Merges (R.history.tree r) (R.history.tree head) (R.history.tree p)
    (R.history.tree result)
      ∧ AgreeOff RollbackPath (R.history.tree base) (R.history.tree result) := by
  obtain ⟨temporary, -, h⟩ := except_bind_ok.mp h
  obtain ⟨initialized, -, h⟩ := except_bind_ok.mp h
  split at h
  · exact absurd (Except.ok.inj h) (by simp)
  · obtain ⟨merged, hmerged, h⟩ := except_bind_ok.mp h
    split at h
    · exact absurd (Except.ok.inj h) (by simp)
    · next hcode =>
      obtain ⟨restored, hrestored, hlast⟩ := except_bind_ok.mp h
      have hzero : restored.returncode = 0 := by simpa using Except.ok.inj hlast
      have hclean : merged.returncode = 0 := by
        by_contra hne
        exact hcode (.inl hne)
      obtain ⟨result, hresult, hmerges⟩ :=
        hG.mergeTree temporary rollbackRef headSha p.text r head p merged hr hh hp hmerged hclean
      exact ⟨result, hmerges, hG.quiet _ _ base result restored hb hresult hrestored hzero⟩

/-! ## A gate over the sample -/

/-- The digest of the patch below. -/
def patchDigest : Nat := 0xa4895eb44afc336fecbba6e520cd67e178dace0276655d102fceffa8e5f70570

def patchCrypto : Crypto := .ofTables [(utf8Encode (lit "patch"), patchDigest)] []

/-- The fourth version of the record. -/
def sampleRecord : PyStr :=
  terminated lf [lit "rollback_version: 4.0", lit "target: the source file",
    lit "rollback_action: git_revert", lit "rollback_ref: " ++ changeId.text,
    lit "reconcile_action: assert_self_governance_deactivated",
    lit "verify_action: self_governance_deactivated"]

def sampleGate : Members :=
  [(lit "schema_version", .str (lit "1.0")), (lit "base_sha", .str baseId.text),
    (lit "head_sha", .str reviewedId.text), (lit "risk_level", .str (lit "L0")),
    (lit "builder_id", .str (lit "builder")), (lit "change_digest", .str (hexDigest patchDigest)),
    (lit "deps", .arr []), (lit "rollback_path", .str (lit "evidence/rollback.md")),
    (lit "protected_file_review", .null)]

/-- What the gate asks beside the graph. -/
def sampleGateRun : Recording :=
  [([lit "status", lit "--porcelain"], done []),
    ([lit "rev-parse", lit "HEAD"], done (headId.text ++ [lf])),
    ([lit "rev-parse", lit "--verify", peeled (lit "main")], done (baseId.text ++ [lf])),
    ([lit "rev-parse", lit "--verify", peeled changeId.text], done (changeId.text ++ [lf])),
    ([lit "rev-parse", lit "--git-path", lit "objects"], done (lit ".git/objects" ++ [lf])),
    ([lit "diff", lit "--binary", lit "main...HEAD", lit "--", lit ".",
      lit ":(exclude).sddgov/merge-gate.json", lit ":(exclude).sddgov/reviews/**"],
        done (lit "patch")),
    ([lit "diff", lit "-M", lit "--name-status", lit "-z", baseId.text ++ lit "..."
      ++ changeId.text],
      done (addedRecord (lit "M") (lit "src"))),
    ([lit "diff", lit "-M", lit "--name-status", lit "-z", lit "main...HEAD"],
      done (addedRecord (lit "M") (lit "src"))),
    ([lit "show", reviewedId.text ++ lit ":evidence/rollback.md"], done sampleRecord),
    ([lit "rev-list", lit "main..HEAD"], done (terminated lf [headId.text])),
    ([lit "ls-tree", lit "-r", lit "--name-only", headId.text], done (terminated lf [lit "src"]))]

def sampleIsolatedRun : Recording :=
  [(isolatedOptions (lit "/tmp")
      ++ [lit "init", lit "--bare", lit "--quiet", lit "--template=", lit "/tmp/git"], done []),
    (mergeTreeArgs (lit "/tmp") changeId.text reviewedId.text baseId.text,
      done (restoredId.text ++ [lf])),
    (restoreDiffArgs baseId.text restoredId.text, done [])]

def sampleHost : MergeHost where
  git := ⟨Recording.answer (sampleRun ++ sampleGateRun), Recording.answer sampleIsolatedRun⟩
  loadGate _ := .ok sampleGate
  boundedPath _ path := .ok path
  verifyDep _ := .ok []
  objectsDirectory _ := .ok true
  temporaryDirectory := .ok (lit "/tmp")
  postconditionIsGreen _ _ := .ok true
  protectedPatterns _ := .ok []
  verifyReview _ _ _ _ _ := .ok .null
  runLocalGate := .ok [(lit "ok", .bool true)]

/-- The sample's revert merges. -/
theorem sampleTree_merges :
    Merges (sampleTree changeId) (sampleTree reviewedId) (sampleTree baseId)
    (sampleTree restoredId) := by
  intro path
  have hids := sample_ne
  have hback : changeId ≠ baseId ∧ restoredId ≠ headId := ⟨hids.1.symm, hids.2.2.2.2.2.2.2.2.2.symm⟩
  unfold sampleTree
  by_cases hsrc : path = lit "src"
  · simp [hsrc, hids, hback, mergeAt]
  · by_cases hlog : path = lit "evidence/log"
    · simp [hlog, hids, hback, mergeAt]
    · simp [hsrc, hlog, hids, hback, mergeAt]

/-- What the revert leaves beside the base is evidence. -/
theorem sampleTree_restored :
    AgreeOff RollbackPath (sampleTree baseId) (sampleTree restoredId) := by
  intro path hpath
  have hids := sample_ne
  have hback := hids.2.2.2.2.2.2.2.2.2.symm
  unfold sampleTree
  by_cases hsrc : path = lit "src"
  · simp [hsrc]
  · by_cases hlog : path = lit "evidence/log"
    · refine absurd (.inl ?_) hpath
      rw [hlog]
      decide
    · simp [hsrc, hlog, hids, hback]

/-- The sample's `git` merges as its repository says. -/
theorem sample_followsMerge : FollowsMerge sampleHost.git sampleRepository where
  toFollows := sample_follows _ (by decide)
  peels := by
    intro name completed hrun _
    have hmem := Recording.answer_mem hrun
    simp only [sampleRun, sampleGateRun, peeled, List.cons_append, List.nil_append, List.mem_cons,
      Prod.mk.injEq, List.cons.injEq, lit_inj, String.reduceEq, reduceCtorEq, and_true, true_and,
      false_and, and_false, false_or, or_false, List.not_mem_nil, List.append_cancel_right_eq]
        at hmem
    rcases hmem with ⟨rfl, rfl⟩ | ⟨rfl, rfl⟩
    · exact ⟨baseId, by decide, rfl⟩
    · exact ⟨changeId, by decide, rfl⟩
  mergeTree := by
    intro temporary base ours theirs b o t completed hb ho ht hrun _
    have hmem := Recording.answer_mem hrun
    simp only [sampleIsolatedRun, mergeTreeArgs, restoreDiffArgs, isolatedOptions, List.cons_append,
      List.nil_append, List.mem_cons, Prod.mk.injEq, List.cons.injEq, lit_inj, String.reduceEq,
      and_true, true_and, false_and, and_false, false_or, or_false, List.not_mem_nil] at hmem
    obtain ⟨⟨-, hbase, hours, htheirs⟩, rfl⟩ := hmem
    obtain rfl := sampleRev_text hb (by simp [sampleIds]) hbase
    obtain rfl := sampleRev_text ho (by simp [sampleIds]) hours
    obtain rfl := sampleRev_text ht (by simp [sampleIds]) htheirs
    exact ⟨restoredId, by decide, sampleTree_merges⟩
  quiet := by
    intro old new a c completed ha hc hrun _
    have hmem := Recording.answer_mem hrun
    simp only [sampleIsolatedRun, mergeTreeArgs, restoreDiffArgs, isolatedOptions, List.cons_append,
      List.nil_append, List.mem_cons, Prod.mk.injEq, List.cons.injEq, lit_inj, String.reduceEq,
      and_true, true_and, false_and, and_false, false_or, or_false, List.not_mem_nil] at hmem
    obtain ⟨⟨hold, hnew⟩, -⟩ := hmem
    obtain rfl := sampleRev_text ha (by simp [sampleIds]) hold
    obtain rfl := sampleRev_text hc (by simp [sampleIds]) hnew
    exact sampleTree_restored

theorem sample_ready :
    ∃ result, verifyMerge sampleHost patchCrypto (lit "main") (lit "gate") false = .ok result := by
  have h : (verifyMerge sampleHost patchCrypto (lit "main") (lit "gate") false).isOk = true := by
    decide
  cases hresult : verifyMerge sampleHost patchCrypto (lit "main") (lit "gate") false with
  | ok result => exact ⟨result, rfl⟩
  | error e => rw [hresult] at h; exact absurd h (by simp [Except.isOk, Except.toBool])

/-! ## The gate -/

/-- The rollback commit of a gate: its record is read at the reviewed head, and names it. -/
def RollbackOf (M : MergeHost) (gate : Members) (headSha baseSha : PyStr) (r : ObjectId) : Prop :=
  ∃ rollback, rollbackRecord M gate headSha baseSha = .ok (some rollback)
    ∧ fieldOf "rollback_ref" rollback = some r.text

/-- A rollback that passes is written in the contract, and its reference is cleanly revertible. -/
theorem checkRollback_ok (hG : FollowsMerge M.git R) {gate : Members} {headSha baseSha : PyStr}
    {rollback : Fields} (h : checkRollback M gate headSha baseSha = .ok rollback) :
    ∃ rollbackRef r p, R.rev rollbackRef = some r ∧ RollbackOf M gate headSha baseSha r
      ∧ RevertChecked M R rollbackRef baseSha headSha r p := by
  obtain ⟨found, hfound, h⟩ := except_bind_ok.mp h
  cases found with
  | none => exact absurd h (by simp)
  | some record =>
    dsimp only at h
    obtain ⟨inRange, hrange, h⟩ := except_bind_ok.mp h
    cases inRange with
    | false => exact absurd h (by simp)
    | true =>
      obtain ⟨clean, hclean, h⟩ := except_bind_ok.mp h
      cases clean with
      | false => exact absurd h (by simp)
      | true =>
        obtain ⟨r, hr, htext⟩ := rollbackRef_ok hG hrange
        obtain ⟨p, hp⟩ := cleanlyRevertible_ok hG hr hclean
        refine ⟨_, r, p, hr, ⟨record, hfound, ?_⟩, hp⟩
        cases hfield : fieldOf "rollback_ref" record with
        | none =>
          rw [hfield] at htext
          exact absurd htext r.word.nonempty
        | some ref =>
          rw [hfield] at htext
          rw [htext]
          rfl

/-- What a gate that reaches the end has been through. -/
structure MergeChecked (M : MergeHost) (baseRef gatePath : PyStr) (gate : Members)
    (headSha baseSha reviewedHead : PyStr) : Prop where
  headRev : git M.git [lit "rev-parse", lit "HEAD"] = .ok headSha
  baseRev : git M.git [lit "rev-parse", lit "--verify", peeled baseRef] = .ok baseSha
  loaded : M.loadGate gatePath = .ok gate
  reviewed : get (lit "head_sha") gate = .str reviewedHead
  audited : onlyAuditChangesAfterReview M.git reviewedHead headSha = .ok true
  rollback : ∃ rollback, checkRollback M gate reviewedHead baseSha = .ok rollback

/-- The reviewed head is the one in the gate. -/
theorem checkGate_ok {gate : Members} {baseSha reviewedHead : PyStr}
    (h : checkGate gate baseSha = .ok reviewedHead) :
    get (lit "head_sha") gate = .str reviewedHead := by
  obtain ⟨_, -, h⟩ := except_bind_ok.mp h
  obtain ⟨_, -, h⟩ := except_bind_ok.mp h
  obtain ⟨_, -, h⟩ := except_bind_ok.mp h
  obtain ⟨_, -, h⟩ := except_bind_ok.mp h
  split at h
  · exact absurd h (by simp)
  · next s hs =>
    obtain rfl := Except.ok.inj h
    exact eq_of_text? hs

/-- What `verify_merge` has checked when it returns, in the order of its checks. -/
theorem verifyMerge_ok {C : Crypto} {baseRef gatePath : PyStr} {runChecks : Bool} {result : Members}
    (h : verifyMerge M C baseRef gatePath runChecks = .ok result) :
    ∃ gate headSha baseSha reviewedHead,
      MergeChecked M baseRef gatePath gate headSha baseSha reviewedHead := by
  obtain ⟨status, -, h⟩ := except_bind_ok.mp h
  obtain ⟨_, -, h⟩ := except_bind_ok.mp h
  obtain ⟨headSha, hhead, h⟩ := except_bind_ok.mp h
  obtain ⟨baseSha, hbase, h⟩ := except_bind_ok.mp h
  obtain ⟨gate, hgate, h⟩ := except_bind_ok.mp h
  obtain ⟨reviewedHead, hreviewed, h⟩ := except_bind_ok.mp h
  obtain ⟨audited, haudited, h⟩ := except_bind_ok.mp h
  obtain ⟨_, htrue, h⟩ := except_bind_ok.mp h
  obtain ⟨_, -, h⟩ := except_bind_ok.mp h
  obtain ⟨digest, -, h⟩ := except_bind_ok.mp h
  obtain ⟨_, -, h⟩ := except_bind_ok.mp h
  obtain ⟨deps, -, h⟩ := except_bind_ok.mp h
  obtain ⟨rollback, hrollback, -⟩ := except_bind_ok.mp h
  obtain rfl : audited = true := require_ok.mp htrue
  exact ⟨gate, headSha, baseSha, reviewedHead, hhead, hbase, hgate,
    checkGate_ok hreviewed, haudited,
    rollback, hrollback⟩

/-- **A merge-ready change is one revertible commit.** Off evidence, reviews and the gate file the
only parent of the rollback commit is the base, the commit is the reviewed head and `HEAD`, and a
revert of it on `HEAD` restores the base. -/
theorem merge_ready_revertible {C : Crypto} (hG : FollowsMerge M.git R) {baseRef gatePath : PyStr}
    {runChecks : Bool} {result : Members}
    (h : verifyMerge M C baseRef gatePath runChecks = .ok result) :
    ∃ gate headSha baseSha reviewedHead,
      MergeChecked M baseRef gatePath gate headSha baseSha reviewedHead
      ∧ ∃ base r p reviewed head, R.rev baseRef = some base ∧ R.rev reviewedHead = some reviewed
        ∧ R.rev headSha = some head ∧ RollbackOf M gate reviewedHead baseSha r
        ∧ R.history.parents r = [p]
        ∧ AgreeOff RollbackPath (R.history.tree p) (R.history.tree base)
        ∧ AgreeOff RollbackPath (R.history.tree r) (R.history.tree reviewed)
        ∧ AgreeOff RollbackPath (R.history.tree r) (R.history.tree head)
        ∧ ∀ path, ¬RollbackPath path → mergeAt (R.history.tree r path) (R.history.tree head path)
          (R.history.tree p path) = some (R.history.tree base path) := by
  obtain ⟨gate, headSha, baseSha, reviewedHead, hchecked⟩ := verifyMerge_ok h
  obtain ⟨rollback, hrollback⟩ := hchecked.rollback
  obtain ⟨rollbackRef, r, p, hr, hof, hrevert⟩ := checkRollback_ok hG hrollback
  obtain ⟨base, hbase, hbaseSha⟩ := peel_ok hG hchecked.baseRev
  have hbaseId : R.rev baseSha = some base := by
    rw [hbaseSha]
    exact R.complete baseRef base base hbase .refl
  -- from the rollback commit to the reviewed head, and from there to `HEAD`
  obtain ⟨r', reviewed, hr', hreviewed, hfirst⟩ := descendants_agree hG.toFollows hrevert.audited
  obtain rfl := Option.some.inj (hr.symm.trans hr')
  obtain ⟨reviewed', head, hreviewed', hhead, hsecond⟩ :=
    descendants_agree hG.toFollows hchecked.audited
  obtain rfl := Option.some.inj (hreviewed.symm.trans hreviewed')
  have hparentEdge : p ∈ R.history.parents r := by
    rw [hrevert.parents]
    exact List.mem_singleton.mpr rfl
  have hparent : R.rev p.text = some p := R.complete rollbackRef r p hr (.single hparentEdge)
  obtain ⟨tree, hmerges, hrestored⟩ :=
    revertRestoresBase_ok hG hr hparent hbaseId hreviewed hrevert.restored
  have hkept : AgreeOff RollbackPath (R.history.tree r) (R.history.tree reviewed) :=
    hfirst.mono fun path hp => .inl hp
  have hlast : AgreeOff RollbackPath (R.history.tree reviewed) (R.history.tree head) := by
    refine hsecond.mono fun path hp => .inl ?_
    unfold AuditPath isAuditPath at hp
    unfold isAuditPath
    simp only [Bool.false_and, Bool.or_false] at hp
    rw [hp, Bool.true_or]
  have hbaseTree : AgreeOff RollbackPath (R.history.tree p) (R.history.tree base) :=
    (hrestored.trans (hmerges.takes_theirs hkept)).symm
  refine ⟨gate, headSha, baseSha, reviewedHead, hchecked, base, r, p, reviewed, head,
    hbase, hreviewed,
    hhead, hof, hrevert.parents, hbaseTree, hkept, hkept.trans hlast, fun path hp => ?_⟩
  rw [← (hkept.trans hlast) path hp, mergeAt_same, hbaseTree path hp]

theorem merge_ready_revertible_sample :
    ∃ gate headSha baseSha reviewedHead,
      MergeChecked sampleHost (lit "main") (lit "gate") gate headSha baseSha reviewedHead
      ∧ ∃ base r p reviewed head, sampleRev (lit "main") = some base
        ∧ sampleRev reviewedHead = some reviewed ∧ sampleRev headSha = some head
        ∧ RollbackOf sampleHost gate reviewedHead baseSha r ∧ sampleParents r = [p]
        ∧ AgreeOff RollbackPath (sampleTree p) (sampleTree base)
        ∧ AgreeOff RollbackPath (sampleTree r) (sampleTree reviewed)
        ∧ AgreeOff RollbackPath (sampleTree r) (sampleTree head)
        ∧ ∀ path, ¬RollbackPath path → mergeAt (sampleTree r path) (sampleTree head path)
          (sampleTree p path) = some (sampleTree base path) :=
  sample_ready.elim fun _ h => merge_ready_revertible sample_followsMerge h

end SddGov.MergeGate
